import Mathlib
import Animatic.Proofs.Script.Outcome
import Animatic.Script.Basic

/-!
# The words of a script

What is read from some tokens holds all of them but the punctuation, in their order, and nothing
else.

* `Word`: what a tree is made of; `Expr.words` and `Stmt.words` list it in source order.
* `Spelled`: words that stand in front of some tokens.
* `expression_spelled`, `statement_spelled`: what the rules of the grammar read is spelled.
* `statements_spelled`: so is everything that is read from a stream without a problem.
-/

namespace Animatic.Script

/-- What a tree is made of, besides punctuation. -/
inductive Word where
  /-- A name, or the word that tells a statement. -/
  | name (name : String)
  | bool (value : Bool)
  | number (value : Float)
  | text (content : String)
  /-- The name of a property. -/
  | key (name : String)
  | interpolated (position : Position) (parts : List Part)
  | binary (op : BinaryOp)
  | unary (op : UnaryOp)

/-! ## Words of trees -/

mutual

/-- The words of an expression in source order. -/
def Expr.words : Expr → List Word
  | .call _ callee arguments => callee.words ++ Argument.allWords arguments
  | .member _ target name => target.words ++ [.name name]
  | .name _ name => [.name name]
  | .number _ value => [.number value]
  | .bool _ value => [.bool value]
  | .text _ content => [.text content]
  | .array _ items => Expr.allWords items
  | .binary _ op lhs rhs => lhs.words ++ .binary op :: rhs.words
  | .unary _ op operand => .unary op :: operand.words
  | .construct _ typeName arguments properties =>
    .name typeName :: Argument.allWords arguments ++ PropertyInit.allWords properties
  | .interpolated position parts => [.interpolated position parts]

/-- The words of some expressions. -/
def Expr.allWords : List Expr → List Word
  | [] => []
  | item :: rest => item.words ++ Expr.allWords rest

/-- The words of an argument. -/
def Argument.words : Argument → List Word
  | .positional value => value.words
  | .named name value => .name name :: value.words

/-- The words of some arguments. -/
def Argument.allWords : List Argument → List Word
  | [] => []
  | argument :: rest => argument.words ++ Argument.allWords rest

/-- The words of some properties. -/
def PropertyInit.allWords : List PropertyInit → List Word
  | [] => []
  | .mk name value :: rest => .key name :: value.words ++ PropertyInit.allWords rest

end

mutual

/-- The words of a statement in source order. -/
def Stmt.words : Stmt → List Word
  | .assign _ target value => target.words ++ value.words
  | .expr _ value => value.words
  | .wait _ seconds => .name "wait" :: seconds.words
  | .loop _ count body => .name "repeat" :: count.words ++ Stmt.allWords body
  | .define _ name parameters body =>
    .name "func" :: .name name :: parameters.map .name ++ Stmt.allWords body
  | .leave _ none => [.name "return"]
  | .leave _ (some value) => .name "return" :: value.words

/-- The words of some statements. -/
def Stmt.allWords : List Stmt → List Word
  | [] => []
  | first :: rest => first.words ++ Stmt.allWords rest

end

/-! ## Words of tokens -/

/-- Whether a mark only tells how the tokens around it belong together. -/
def Mark.isPunctuation : Mark → Bool
  | leftParen | rightParen | leftBrace | rightBrace | leftBracket | rightBracket
  | comma | colon | semicolon | dot | assign => true
  | _ => false

/-- Whether a token is more than punctuation or the end of the text. -/
def Token.isWord (token : Token) : Bool :=
  match token.kind with
  | .mark mark => !mark.isPunctuation
  | .finish => false
  | _ => true

section

variable (splice : Position → List Char → Except Diagnostic (List Part))

/-- Whether a word is what a token stands for. The name of a property may be given as a literal, and
a literal with braces is the text that is put together from its parts. -/
def Word.Reads : Word → Token → Prop
  | .name written, token => token.kind = .name written
  | .bool value, token => token.kind = .name (if value then "true" else "false")
  | .number value, token => token.kind = .number value
  | .text content, token => token.kind = .literal .verbatim content
  | .key written, token =>
    token.kind = .name written ∨ token.kind = .literal .verbatim written
  | .interpolated position parts, token => token.position = position ∧
    ((∃ content, token.kind = .literal .names content ∧
        parts = Literal.namedParts position content.toList) ∨
      ∃ content, token.kind = .literal .expressions content ∧
        splice position content.toList = .ok parts)
  | .binary op, token => token.binaryOp? = some op
  | .unary op, token => token.unaryOp? = some op

/-- Some words are what stands in front of the rest of some tokens, without punctuation. -/
def Spelled (words : List Word) (tokens rest : List Token) : Prop :=
  ∃ taken, tokens = taken ++ rest ∧
    List.Forall₂ (Word.Reads splice) words (taken.filter Token.isWord)

variable {splice} {α β : Type} {n m : Nat} {words more : List Word} {token : Token}
  {tokens middle rest : List Token}

theorem spelled_nil (tokens : List Token) : Spelled splice [] tokens tokens :=
  ⟨[], rfl, .nil⟩

theorem Spelled.append (h : Spelled splice words tokens middle)
    (h' : Spelled splice more middle rest) : Spelled splice (words ++ more) tokens rest := by
  obtain ⟨taken, rfl, hwords⟩ := h
  obtain ⟨taken', rfl, hmore⟩ := h'
  refine ⟨taken ++ taken', (List.append_assoc _ _ _).symm, ?_⟩
  rw [List.filter_append]
  exact List.rel_append hwords hmore

/-- Punctuation is no word. -/
theorem spelled_skip (h : token.isWord = false) (rest : List Token) :
    Spelled splice [] (token :: rest) rest :=
  ⟨[token], rfl, by rw [List.filter_cons_of_neg (by rw [h]; exact Bool.false_ne_true)]; exact .nil⟩

/-- What is read as a word is more than punctuation. -/
theorem Word.Reads.isWord {word : Word} (h : word.Reads splice token) : token.isWord = true := by
  obtain ⟨kind, text, position⟩ := token
  cases word with
  | name | bool | number | text =>
    obtain rfl : kind = _ := h
    rfl
  | key =>
    obtain h | h := h
    all_goals
      obtain rfl : kind = _ := h
      rfl
  | interpolated =>
    obtain ⟨-, ⟨content, h, -⟩ | ⟨content, h, -⟩⟩ := h
    all_goals
      obtain rfl : kind = _ := h
      rfl
  | binary op =>
    cases kind with
    | mark mark => cases mark <;> first | rfl | cases h
    | _ => cases h
  | unary op =>
    cases kind with
    | mark mark => cases mark <;> first | rfl | cases h
    | _ => cases h

theorem spelled_word {word : Word} (h : word.Reads splice token) (rest : List Token) :
    Spelled splice [word] (token :: rest) rest :=
  ⟨[token], rfl, by rw [List.filter_cons_of_pos h.isWord]; exact .cons h .nil⟩

/-- What a reading gives if it succeeds. -/
def Read.Gives (r : Read α n) (P : α → List Token → Prop) : Prop :=
  ∀ value rest shorter, r = .ok ⟨value, rest, shorter⟩ → P value rest

theorem Read.gives_ok {P : α → List Token → Prop} {reading : Reading α n}
    (h : P reading.value reading.rest) : Read.Gives (.ok reading) P := by
  rintro value rest shorter hread
  obtain rfl := Except.ok.inj hread
  exact h

theorem Read.gives_error {P : α → List Token → Prop} (d : Diagnostic) :
    Read.Gives (.error d : Read α n) P := by
  rintro value rest shorter hread
  cases hread

theorem Read.Gives.bind {r : Read α n} {next : Reading α n → Read β m}
    {P : α → List Token → Prop} {Q : β → List Token → Prop} (h : r.Gives P)
    (hnext : ∀ value rest shorter, P value rest → Read.Gives (next ⟨value, rest, shorter⟩) Q) :
    Read.Gives (r >>= next) Q := by
  cases r with
  | error d => exact Read.gives_error d
  | ok reading => exact hnext _ _ _ (h _ _ _ rfl)

/-! ## Marks and names -/

theorem isWord_of_mark {mark : Mark} (hmark : mark.isPunctuation = true)
    (h : token.isMark mark = true) : token.isWord = false := by
  rw [Token.isWord, isMark_iff.mp h]
  exact congrArg not hmark

theorem mark?_spelled {mark : Mark} (hmark : mark.isPunctuation = true)
    {reading : Reading Unit tokens.length} (h : mark? mark tokens = some reading) :
    Spelled splice [] tokens reading.rest := by
  cases tokens with
  | nil => cases h
  | cons token rest =>
    rw [mark?] at h
    split at h
    · rename_i htoken
      obtain rfl := Option.some.inj h
      exact spelled_skip (isWord_of_mark hmark htoken) rest
    · cases h

variable (splice)

theorem takeMark_spelled {mark : Mark} (hmark : mark.isPunctuation = true) (what : String)
    (tokens : List Token) :
    (takeMark mark what tokens).Gives fun _ rest => Spelled splice [] tokens rest := by
  rw [takeMark]
  split
  · rename_i reading hread
    exact Read.gives_ok (mark?_spelled hmark hread)
  · exact Read.gives_error _

theorem takeName_spelled (tokens : List Token) :
    (takeName tokens).Gives fun name rest => Spelled splice [.name name] tokens rest := by
  unfold takeName
  split
  · refine Read.gives_ok (spelled_word ?_ _)
    rfl
  · exact Read.gives_error _

theorem takePropertyName_spelled (tokens : List Token) :
    (takePropertyName tokens).Gives fun name rest => Spelled splice [.key name] tokens rest := by
  unfold takePropertyName
  split
  · refine Read.gives_ok (spelled_word ?_ _)
    exact Or.inl rfl
  · refine Read.gives_ok (spelled_word ?_ _)
    exact Or.inr rfl
  · exact Read.gives_error _

theorem parameterList_spelled (tokens : List Token) :
    (parameterList tokens).Gives fun names rest =>
      Spelled splice (names.map .name) tokens rest := by
  rw [parameterList]
  cases hclose : mark? .rightParen tokens with
  | some reading => exact Read.gives_ok (mark?_spelled rfl hclose)
  | none =>
    refine (takeName_spelled splice tokens).bind fun name rest₁ h₁ hname => ?_
    dsimp only
    cases hcomma : mark? .comma rest₁ with
    | some reading =>
      obtain ⟨_, rest₂, h₂⟩ := reading
      refine (parameterList_spelled rest₂).bind fun names rest₃ h₃ hnames => ?_
      exact Read.gives_ok (hname.append ((mark?_spelled rfl hcomma).append hnames))
    | none =>
      refine (takeMark_spelled splice rfl _ rest₁).bind fun _ rest₂ h₂ hparen => ?_
      exact Read.gives_ok (hname.append hparen)
termination_by tokens.length

/-! ## Expressions -/

/-- A head that a constructor's braces follow is a name and some arguments. -/
theorem Expr.words_of_constructorHead? {value : Expr} {typeName : String}
    {arguments : List Argument} (h : value.constructorHead? = some (typeName, arguments)) :
    value.words = .name typeName :: Argument.allWords arguments := by
  cases value with
  | name =>
    obtain ⟨rfl, rfl⟩ := Prod.mk.inj (Option.some.inj h)
    rfl
  | call _ callee others =>
    cases callee with
    | name =>
      obtain ⟨rfl, rfl⟩ := Prod.mk.inj (Option.some.inj h)
      rfl
    | _ => cases h
  | _ => cases h

/-- What is read behind an expression goes on with its words. -/
def GoesOn (value : Expr) (tokens : List Token) (longer : Expr) (rest : List Token) : Prop :=
  ∃ words, longer.words = value.words ++ words ∧ Spelled splice words tokens rest

variable {splice} in
theorem goesOn_refl (value : Expr) (tokens : List Token) :
    GoesOn splice value tokens value tokens :=
  ⟨[], (List.append_nil _).symm, spelled_nil tokens⟩

variable {splice} in
/-- What stands between an expression and a longer one comes in front of what follows. -/
theorem Spelled.goesOn {value longer longest : Expr} (h : Spelled splice words tokens middle)
    (hwords : longer.words = value.words ++ words)
    (h' : GoesOn splice longer middle longest rest) :
    GoesOn splice value tokens longest rest := by
  obtain ⟨more, hmore, hrest⟩ := h'
  exact ⟨words ++ more, by rw [hmore, hwords, List.append_assoc], h.append hrest⟩

variable {splice} in
theorem Spelled.of_goesOn {value longer : Expr} (h : Spelled splice value.words tokens middle)
    (h' : GoesOn splice value middle longer rest) : Spelled splice longer.words tokens rest := by
  obtain ⟨more, hmore, hrest⟩ := h'
  rw [hmore]
  exact h.append hrest

mutual

theorem expression_spelled (constructors : Bool) (tokens : List Token) :
    (expression splice constructors tokens).Gives fun value rest =>
      Spelled splice value.words tokens rest := by
  rw [expression]
  exact binary_spelled constructors 1 tokens
termination_by (tokens.length, 4)

private theorem binary_spelled (constructors : Bool) (least : Nat) (tokens : List Token) :
    (binary splice constructors least tokens).Gives fun value rest =>
      Spelled splice value.words tokens rest := by
  rw [binary]
  refine (unary_spelled constructors tokens).bind fun lhs rest₁ h₁ hlhs => ?_
  refine (operators_goOn constructors least lhs rest₁).bind fun value rest₂ h₂ hvalue => ?_
  exact Read.gives_ok (hlhs.of_goesOn hvalue)
termination_by (tokens.length, 3)

private theorem operators_goOn (constructors : Bool) (least : Nat) (lhs : Expr) :
    (tokens : List Token) →
      (operators splice constructors least lhs tokens).Gives (GoesOn splice lhs tokens)
  | [] => by
    rw [operators]
    exact Read.gives_ok (goesOn_refl lhs [])
  | token :: rest => by
    rw [operators]
    cases hop : token.binaryOp? with
    | none => exact Read.gives_ok (goesOn_refl lhs _)
    | some op =>
      dsimp only
      split
      · exact Read.gives_ok (goesOn_refl lhs _)
      · refine (binary_spelled constructors (op.precedence + 1) rest).bind
          fun rhs rest₁ h₁ hrhs => ?_
        refine (operators_goOn constructors least (.binary token.position op lhs rhs) rest₁).bind
          fun value rest₂ h₂ hvalue => ?_
        have hword : Word.Reads splice (.binary op) token := hop
        exact Read.gives_ok (((spelled_word hword rest).append hrhs).goesOn rfl hvalue)
termination_by tokens => (tokens.length, 0)

private theorem unary_spelled (constructors : Bool) : (tokens : List Token) →
    (unary splice constructors tokens).Gives fun value rest =>
      Spelled splice value.words tokens rest
  | [] => by
    rw [unary]
    exact postfixed_spelled constructors []
  | token :: rest => by
    rw [unary]
    cases hop : token.unaryOp? with
    | none => exact postfixed_spelled constructors (token :: rest)
    | some op =>
      refine (unary_spelled constructors rest).bind fun operand rest₁ h₁ hoperand => ?_
      have hword : Word.Reads splice (.unary op) token := hop
      exact Read.gives_ok ((spelled_word hword rest).append hoperand)
termination_by tokens => (tokens.length, 2)

private theorem postfixed_spelled (constructors : Bool) (tokens : List Token) :
    (postfixed splice constructors tokens).Gives fun value rest =>
      Spelled splice value.words tokens rest := by
  rw [postfixed]
  refine (primary_spelled constructors tokens).bind fun operand rest₁ h₁ hoperand => ?_
  refine (suffixes_goOn constructors operand rest₁).bind fun value rest₂ h₂ hvalue => ?_
  exact Read.gives_ok (hoperand.of_goesOn hvalue)
termination_by (tokens.length, 1)

private theorem suffixes_goOn (constructors : Bool) (value : Expr) : (tokens : List Token) →
    (suffixes splice constructors value tokens).Gives (GoesOn splice value tokens)
  | [] => by
    rw [suffixes]
    exact Read.gives_ok (goesOn_refl value [])
  | token :: rest => by
    have hskip {mark : Mark} (hmark : mark.isPunctuation = true) (h : token.isMark mark = true) :
        Spelled splice [] (token :: rest) rest := spelled_skip (isWord_of_mark hmark h) rest
    rw [suffixes]
    split
    · rename_i hdot
      refine (takeName_spelled splice rest).bind fun name rest₁ h₁ hname => ?_
      refine (suffixes_goOn constructors (.member value.position value name) rest₁).bind
        fun longer rest₂ h₂ hlonger => ?_
      exact Read.gives_ok (((hskip rfl hdot).append hname).goesOn rfl hlonger)
    split
    · rename_i hparen
      refine (argumentList_spelled false rest).bind fun arguments rest₁ h₁ harguments => ?_
      refine (suffixes_goOn constructors (.call value.position value arguments) rest₁).bind
        fun longer rest₂ h₂ hlonger => ?_
      exact Read.gives_ok (((hskip rfl hparen).append harguments).goesOn rfl hlonger)
    split
    · rename_i hbrace
      have hbrace := ((Bool.and_eq_true _ _).mp hbrace).1
      cases hhead : value.constructorHead? with
      | none => exact Read.gives_ok (goesOn_refl value _)
      | some head =>
        obtain ⟨typeName, arguments⟩ := head
        dsimp only
        refine (propertyList_spelled rest).bind fun properties rest₁ h₁ hproperties => ?_
        refine (suffixes_goOn constructors
          (.construct value.position typeName arguments properties) rest₁).bind
          fun longer rest₂ h₂ hlonger => ?_
        refine Read.gives_ok (((hskip rfl hbrace).append hproperties).goesOn ?_ hlonger)
        rw [Expr.words_of_constructorHead? hhead]
        rfl
    · exact Read.gives_ok (goesOn_refl value _)
termination_by tokens => (tokens.length, 0)

private theorem primary_spelled (constructors : Bool) : (tokens : List Token) →
    (primary splice constructors tokens).Gives fun value rest =>
      Spelled splice value.words tokens rest
  | [] => by
    rw [primary]
    exact Read.gives_error _
  | ⟨kind, text, position⟩ :: rest => by
    rw [primary]
    cases kind with
    | number value =>
      refine Read.gives_ok (spelled_word ?_ rest)
      rfl
    | literal style content =>
      cases style with
      | verbatim =>
        refine Read.gives_ok (spelled_word ?_ rest)
        rfl
      | names =>
        refine Read.gives_ok (spelled_word ?_ rest)
        exact ⟨rfl, .inl ⟨content, rfl, rfl⟩⟩
      | expressions =>
        dsimp only
        cases hparts : splice position content.toList with
        | error d => exact Read.gives_error _
        | ok parts =>
          refine Read.gives_ok (spelled_word ?_ rest)
          exact ⟨rfl, .inr ⟨content, rfl, hparts⟩⟩
    | name name =>
      dsimp only
      split
      · rename_i hbool
        refine Read.gives_ok (spelled_word ?_ rest)
        rcases (Bool.or_eq_true _ _).mp hbool with h | h <;> rw [beq_iff_eq.mp h] <;> rfl
      · have hreads : Word.Reads splice (.name name) ⟨.name name, text, position⟩ := rfl
        have hword := spelled_word hreads rest
        by_cases hadd : (name == "Add" && constructors) = true
        · rw [if_pos hadd]
          cases hbrace : mark? .leftBrace rest with
          | none => exact Read.gives_ok hword
          | some reading =>
            obtain ⟨_, rest₁, h₁⟩ := reading
            have hclose : Mark.rightBrace.isPunctuation = true := rfl
            refine (expressionList_spelled hclose _ rest₁).bind fun items rest₂ h₂ hitems => ?_
            have hcall : (Expr.call position (.name position name)
                [.positional (.array position items)]).words =
                  [.name name] ++ ([] ++ Expr.allWords items) := by
              simp only [Expr.words, Argument.allWords, Argument.words, List.append_nil,
                List.nil_append]
            refine Read.gives_ok ?_
            rw [hcall]
            exact hword.append ((mark?_spelled rfl hbrace).append hitems)
        · rw [if_neg hadd]
          exact Read.gives_ok hword
    | mark mark =>
      have hskip (h : mark.isPunctuation = true) :
          Spelled splice [] (⟨.mark mark, text, position⟩ :: rest) rest :=
        spelled_skip (isWord_of_mark h (isMark_iff.mpr rfl)) rest
      cases mark with
      | leftBracket =>
        have hclose : Mark.rightBracket.isPunctuation = true := rfl
        refine (expressionList_spelled hclose _ rest).bind fun items rest₁ h₁ hitems => ?_
        exact Read.gives_ok ((hskip rfl).append hitems)
      | leftParen =>
        refine (expression_spelled true rest).bind fun value rest₁ h₁ hvalue => ?_
        refine (takeMark_spelled splice rfl _ rest₁).bind fun _ rest₂ h₂ hparen => ?_
        have hgroup := (hskip rfl).append (hvalue.append hparen)
        rw [List.append_nil] at hgroup
        exact Read.gives_ok hgroup
      | _ => exact Read.gives_error _
    | _ => exact Read.gives_error _
termination_by tokens => (tokens.length, 0)

private theorem expressionList_spelled {close : Mark} (hclose : close.isPunctuation = true)
    (what : String) (tokens : List Token) :
    (expressionList splice close what tokens).Gives fun items rest =>
      Spelled splice (Expr.allWords items) tokens rest := by
  rw [expressionList]
  cases hmark : mark? close tokens with
  | some reading => exact Read.gives_ok (mark?_spelled hclose hmark)
  | none =>
    refine (expression_spelled true tokens).bind fun item rest₁ h₁ hitem => ?_
    dsimp only
    cases hcomma : mark? .comma rest₁ with
    | some reading =>
      obtain ⟨_, rest₂, h₂⟩ := reading
      refine (expressionList_spelled hclose what rest₂).bind fun items rest₃ h₃ hitems => ?_
      exact Read.gives_ok (hitem.append ((mark?_spelled rfl hcomma).append hitems))
    | none =>
      refine (takeMark_spelled splice hclose what rest₁).bind fun _ rest₂ h₂ hend => ?_
      exact Read.gives_ok (hitem.append hend)
termination_by (tokens.length, 5)

private theorem argumentList_spelled (seenNamed : Bool) (tokens : List Token) :
    (argumentList splice seenNamed tokens).Gives fun arguments rest =>
      Spelled splice (Argument.allWords arguments) tokens rest := by
  rw [argumentList]
  cases hclose : mark? .rightParen tokens with
  | some reading => exact Read.gives_ok (mark?_spelled rfl hclose)
  | none =>
    refine (argument_spelled seenNamed tokens).bind fun first rest₁ h₁ hfirst => ?_
    dsimp only
    cases hcomma : mark? .comma rest₁ with
    | some reading =>
      obtain ⟨_, rest₂, h₂⟩ := reading
      refine (argumentList_spelled first.isNamed rest₂).bind fun others rest₃ h₃ hothers => ?_
      exact Read.gives_ok (hfirst.append ((mark?_spelled rfl hcomma).append hothers))
    | none =>
      refine (takeMark_spelled splice rfl _ rest₁).bind fun _ rest₂ h₂ hparen => ?_
      exact Read.gives_ok (hfirst.append hparen)
termination_by (tokens.length, 6)

private theorem argument_spelled (seenNamed : Bool) (tokens : List Token) :
    (argument splice seenNamed tokens).Gives fun first rest =>
      Spelled splice first.words tokens rest := by
  unfold argument
  split
  · rename_i name text position text' position' rest
    have hreads : Word.Reads splice (.name name) ⟨.name name, text, position⟩ := rfl
    have hcolon : Spelled splice [] (⟨.mark .colon, text', position'⟩ :: rest) rest :=
      spelled_skip rfl rest
    refine (expression_spelled true rest).bind fun value rest₁ h₁ hvalue => ?_
    exact Read.gives_ok ((spelled_word hreads _).append (hcolon.append hvalue))
  · split
    · exact Read.gives_error _
    · refine (expression_spelled true tokens).bind fun value rest₁ h₁ hvalue => ?_
      exact Read.gives_ok hvalue
termination_by (tokens.length, 5)

private theorem propertyList_spelled (tokens : List Token) :
    (propertyList splice tokens).Gives fun properties rest =>
      Spelled splice (PropertyInit.allWords properties) tokens rest := by
  rw [propertyList]
  cases hclose : mark? .rightBrace tokens with
  | some reading => exact Read.gives_ok (mark?_spelled rfl hclose)
  | none =>
    refine (takePropertyName_spelled splice tokens).bind fun name rest₁ h₁ hname => ?_
    refine (takeMark_spelled splice rfl _ rest₁).bind fun _ rest₂ h₂ hcolon => ?_
    refine (expression_spelled true rest₂).bind fun value rest₃ h₃ hvalue => ?_
    dsimp only
    have hproperty := hname.append (hcolon.append hvalue)
    cases hcomma : mark? .comma rest₃ with
    | some reading =>
      obtain ⟨_, rest₄, h₄⟩ := reading
      refine (propertyList_spelled rest₄).bind fun others rest₅ h₅ hothers => ?_
      exact Read.gives_ok (hproperty.append ((mark?_spelled rfl hcomma).append hothers))
    | none =>
      refine (takeMark_spelled splice rfl _ rest₃).bind fun _ rest₄ h₄ hbrace => ?_
      exact Read.gives_ok (hproperty.append hbrace)
termination_by (tokens.length, 0)

end

/-! ## Statements -/

theorem skipSemicolons_spelled (tokens : List Token) :
    Spelled splice [] tokens (skipSemicolons tokens) := by
  induction tokens with
  | nil => exact spelled_nil []
  | cons token rest ih =>
    by_cases h : token.isMark .semicolon = true
    · rw [skipSemicolons_cons (isMark_iff.mp h)]
      exact (spelled_skip (isWord_of_mark rfl h) rest).append ih
    · have hstarts : ¬ startsWith .semicolon (token :: rest) := fun hmark =>
        h (isMark_iff.mpr hmark)
      rw [skipSemicolons_eq hstarts]
      exact spelled_nil _

mutual

theorem statement_spelled (tokens : List Token) :
    (statement splice tokens).Gives fun stmt rest => Spelled splice stmt.words tokens rest := by
  have hword (word text : String) (position : Position) (rest : List Token) :
      Spelled splice [.name word] (⟨.name word, text, position⟩ :: rest) rest := by
    refine spelled_word ?_ rest
    rfl
  unfold statement
  split
  · rename_i text position name text' position' rest
    refine (takeMark_spelled splice rfl _ rest).bind fun _ rest₁ h₁ hparen => ?_
    refine (parameterList_spelled splice rest₁).bind fun parameters rest₂ h₂ hparameters => ?_
    refine (block_spelled rest₂).bind fun body rest₃ h₃ hbody => ?_
    exact Read.gives_ok ((hword _ _ _ _).append ((hword _ _ _ _).append
      (hparen.append (hparameters.append hbody))))
  · rename_i text position rest
    refine (expression_spelled splice false rest).bind fun count rest₁ h₁ hcount => ?_
    refine (block_spelled rest₁).bind fun body rest₂ h₂ hbody => ?_
    exact Read.gives_ok ((hword _ _ _ _).append (hcount.append hbody))
  · rename_i text position rest
    refine (expression_spelled splice true rest).bind fun seconds rest₁ h₁ hseconds => ?_
    exact Read.gives_ok ((hword _ _ _ _).append hseconds)
  · rename_i text position rest
    split
    · refine (expression_spelled splice true rest).bind fun value rest₁ h₁ hvalue => ?_
      exact Read.gives_ok ((hword _ _ _ _).append hvalue)
    · exact Read.gives_ok (hword _ _ _ _)
  · refine (expression_spelled splice true tokens).bind fun target rest₁ h₁ htarget => ?_
    dsimp only
    cases hassign : mark? .assign rest₁ with
    | none => exact Read.gives_ok htarget
    | some reading =>
      obtain ⟨_, rest₂, h₂⟩ := reading
      dsimp only
      split
      · refine (expression_spelled splice true rest₂).bind fun value rest₃ h₃ hvalue => ?_
        exact Read.gives_ok (htarget.append ((mark?_spelled rfl hassign).append hvalue))
      · exact Read.gives_error _
termination_by (tokens.length, 0)
decreasing_by all_goals (subst_vars; simp only [List.length_cons]; omega)

private theorem block_spelled (tokens : List Token) :
    (block splice tokens).Gives fun body rest =>
      Spelled splice (Stmt.allWords body) tokens rest := by
  rw [block]
  refine (takeMark_spelled splice rfl _ tokens).bind fun _ rest₁ h₁ hbrace => ?_
  refine (blockBody_spelled rest₁).bind fun body rest₂ h₂ hbody => ?_
  exact Read.gives_ok (hbrace.append hbody)
termination_by (tokens.length, 0)

private theorem blockBody_spelled (tokens : List Token) :
    (blockBody splice tokens).Gives fun body rest =>
      Spelled splice (Stmt.allWords body) tokens rest := by
  have hle := length_skipSemicolons_le tokens
  have hskip := skipSemicolons_spelled splice tokens
  rw [blockBody]
  dsimp only
  cases hclose : mark? .rightBrace (skipSemicolons tokens) with
  | some reading => exact Read.gives_ok (hskip.append (mark?_spelled rfl hclose))
  | none =>
    dsimp only
    split
    · exact Read.gives_error _
    · refine (statement_spelled (skipSemicolons tokens)).bind fun first rest₁ h₁ hfirst => ?_
      refine (blockBody_spelled rest₁).bind fun others rest₂ h₂ hothers => ?_
      exact Read.gives_ok (hskip.append (hfirst.append hothers))
termination_by (tokens.length, 1)
decreasing_by all_goals omega

end

/-! ## Programs -/

/-- A program that is read without a problem is spelled up to the end of the text. -/
theorem program_spelled (tokens : List Token) {stmts : List Stmt}
    (h : program splice tokens = (stmts, none)) :
    ∃ rest, Spelled splice (Stmt.allWords stmts) tokens rest ∧ (front rest).isFinish = true := by
  have hle := length_skipSemicolons_le tokens
  have hskip := skipSemicolons_spelled splice tokens
  rw [program] at h
  dsimp only at h
  split at h
  · rename_i hfinish
    obtain ⟨rfl, -⟩ := Prod.mk.inj h
    exact ⟨_, hskip, hfinish⟩
  · cases hfirst : statement splice (skipSemicolons tokens) with
    | error d =>
      rw [hfirst] at h
      cases (Prod.mk.inj h).2
    | ok reading =>
      obtain ⟨first, rest, hshorter⟩ := reading
      rw [hfirst] at h
      obtain ⟨rfl, hothers⟩ := Prod.mk.inj h
      obtain ⟨last, hspelled, hfinish⟩ := program_spelled rest (Prod.ext rfl hothers)
      have hstatement := statement_spelled splice _ _ _ _ hfirst
      exact ⟨last, hskip.append (hstatement.append hspelled), hfinish⟩
termination_by tokens.length
decreasing_by omega

end

theorem isWord_of_isFinish {token : Token} (h : token.isFinish = true) : token.isWord = false := by
  rw [Token.isWord, isFinish_iff.mp h]

/-- The end of a text that is marked where a stream does not mark it is no word. -/
theorem ofTokens_words (tokens : List Token) :
    (Reader.ofTokens tokens).tokens.filter Token.isWord = tokens.filter Token.isWord := by
  rw [Reader.ofTokens]
  split
  · rename_i hlast
    rw [List.getLast?_eq_none_iff.mp hlast]
    rfl
  · dsimp only
    split
    · rfl
    · rw [List.filter_append]
      exact List.append_nil _

/-- Nothing but the end is left where a reading stops. -/
theorem words_of_stop {taken rest : List Token}
    (h : ∀ token ∈ (taken ++ rest).dropLast, token.isFinish = false)
    (hstop : (front rest).isFinish = true) : rest.filter Token.isWord = [] := by
  match rest with
  | [] => rfl
  | [token] =>
    have hend : token.isWord = false := isWord_of_isFinish hstop
    rw [List.filter_cons_of_neg (Bool.eq_false_iff.mp hend), List.filter_nil]
  | token :: next :: others =>
    have hmem : token ∈ (taken ++ token :: next :: others).dropLast := by
      rw [List.dropLast_append_of_ne_nil (List.cons_ne_nil _ _), List.dropLast_cons_cons]
      exact List.mem_append_right _ List.mem_cons_self
    rw [front, List.headD_cons, h token hmem] at hstop
    cases hstop

/-- What is read from a stream of tokens without a problem are its words: all of them in their
order, and nothing else. -/
theorem statements_spelled {tokens : List Token}
    (hfinish : ∀ token ∈ tokens.dropLast, token.isFinish = false)
    (hproblem : (Reader.ofTokens tokens).statements.2.problem = none) :
    List.Forall₂ (Word.Reads splice) (Stmt.allWords (Reader.ofTokens tokens).statements.1)
      (tokens.filter Token.isWord) := by
  have hreads : (Reader.ofTokens tokens).statements =
      ((program splice (Reader.ofTokens tokens).tokens).1,
        ⟨[], (program splice (Reader.ofTokens tokens).tokens).2⟩) := by
    rw [Reader.ofTokens]
    split <;> rfl
  rw [hreads] at hproblem ⊢
  obtain ⟨rest, ⟨taken, hstream, hwords⟩, hstop⟩ :=
    program_spelled splice (Reader.ofTokens tokens).tokens (Prod.ext rfl hproblem)
  have hend := ofTokens_dropLast hfinish
  rw [hstream] at hend
  rw [← ofTokens_words tokens, hstream, List.filter_append, words_of_stop hend hstop,
    List.append_nil, ← hstream]
  exact hwords

/-- The tokens of `Add { Box { width: -2 }, true };`. -/
def sugarTokens : List Token :=
  [.name "Add", .mark .leftBrace, .name "Box", .mark .leftBrace, .name "width", .mark .colon,
    .mark .minus, .number 2, .mark .rightBrace, .mark .comma, .name "true", .mark .rightBrace,
    .mark .semicolon].map (⟨·, "", .start⟩)

theorem statements_spelled_sugarTokens :
    (∀ token ∈ sugarTokens.dropLast, token.isFinish = false) ∧
      (Reader.ofTokens sugarTokens).statements.2.problem = none ∧
      List.Forall₂ (Word.Reads splice)
        [.name "Add", .name "Box", .key "width", .unary .neg, .number 2, .bool true]
        (sugarTokens.filter Token.isWord) := by
  have hfinish : ∀ token ∈ sugarTokens.dropLast, token.isFinish = false := by decide
  have hproblem : (Reader.ofTokens sugarTokens).statements.2.problem = none := by cbv
  have hwords : Stmt.allWords (Reader.ofTokens sugarTokens).statements.1 =
      [.name "Add", .name "Box", .key "width", .unary .neg, .number 2, .bool true] := by cbv
  exact ⟨hfinish, hproblem, hwords ▸ statements_spelled hfinish hproblem⟩

end Animatic.Script
