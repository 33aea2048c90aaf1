import Mathlib
import Animatic.Proofs.Script.Lexing
import Animatic.Proofs.Script.Locality
import Animatic.Script.Basic

/-!
# Scripts in a row

A script without problems, a semicolon on a line of its own and another script read as the two
scripts do.

* `TokenStream.scan_append`: the tokens of a text stay when a new line follows it.
* `splice_relocate`: the parts of a literal at another place.
* `parse_joined`: the statements and diagnostics of two scripts in a row.
-/

namespace Animatic.Script

open Animatic.Text

/-! ## Lines -/

namespace Position

theorem line_advance (position : Position) (text : List Char) :
    (position.advance text).line = position.line + text.count '\n' := by
  induction text generalizing position with
  | nil => rfl
  | cons c rest ih =>
    rw [advance_cons, ih, next]
    by_cases h : c = '\n'
    · rw [if_pos h, h, List.count_cons_self]
      dsimp only
      omega
    · rw [if_neg h, List.count_cons_of_ne h]

/-- A new line starts in the first column. -/
theorem advance_newline (position : Position) (text : List Char) :
    position.advance (text ++ ['\n']) =
      ⟨position.line + (text ++ ['\n']).count '\n', 1⟩ := by
  rw [List.count_append, List.count_singleton_self, ← Nat.add_assoc, ← line_advance,
    advance_append]
  rfl

end Position

/-! ## Trivia -/

theorem triviaLength_newline (inComment : Bool) (more : List Char) :
    triviaLength inComment ('\n' :: more) = triviaLength false more + 1 := by
  cases inComment <;> rfl

/-- A text of nothing but trivia, in which a new line ends a comment. -/
theorem triviaLength_append_of_nil {inComment : Bool} {text : List Char}
    (h : text.drop (triviaLength inComment text) = []) (more : List Char) :
    triviaLength inComment (text ++ '\n' :: more) =
      text.length + triviaLength false ('\n' :: more) := by
  induction text generalizing inComment with
  | nil =>
    rw [List.nil_append, triviaLength_newline, triviaLength_newline, List.length_nil, Nat.zero_add]
  | cons c tail ih =>
    rw [triviaLength] at h
    rw [List.cons_append, triviaLength, List.length_cons]
    by_cases hcomment : inComment = true
    · rw [if_pos hcomment] at h ⊢
      rw [ih h]
      omega
    rw [if_neg hcomment] at h ⊢
    by_cases hblank : isBlank c = true
    · rw [if_pos hblank] at h ⊢
      rw [ih h]
      omega
    rw [if_neg hblank] at h ⊢
    by_cases hhash : (c == '#') = true
    · rw [if_pos hhash] at h ⊢
      rw [ih h]
      omega
    · rw [if_neg hhash] at h
      cases h

/-- Behind the trivia of a text stands a token, whatever follows the text. -/
theorem triviaLength_append_of_cons {inComment : Bool} {text rest : List Char} {first : Char}
    (h : text.drop (triviaLength inComment text) = first :: rest) (more : List Char) :
    triviaLength inComment (text ++ more) = triviaLength inComment text := by
  induction text generalizing inComment with
  | nil =>
    rw [List.drop_nil] at h
    cases h
  | cons c tail ih =>
    rw [triviaLength] at h
    rw [List.cons_append, triviaLength, triviaLength]
    by_cases hcomment : inComment = true
    · rw [if_pos hcomment] at h ⊢
      rw [if_pos hcomment, ih h]
    rw [if_neg hcomment] at h ⊢
    rw [if_neg hcomment]
    by_cases hblank : isBlank c = true
    · rw [if_pos hblank] at h ⊢
      rw [if_pos hblank, ih h]
    rw [if_neg hblank] at h ⊢
    rw [if_neg hblank]
    by_cases hhash : (c == '#') = true
    · rw [if_pos hhash] at h ⊢
      rw [if_pos hhash, ih h]
    · rw [if_neg hhash, if_neg hhash]

/-! ## Lexemes -/

namespace Lexeme

/-- A lexeme without a problem is read as it is when a new line follows the text. -/
def Stays (rest : List Char) (lexeme lexeme' : Lexeme) : Prop :=
  lexeme.problem = none → lexeme' = lexeme ∧ lexeme.extra ≤ rest.length

variable {rest : List Char} {more : List Char}

theorem Stays.ite {c : Prop} [Decidable c] {a a' b b' : Lexeme} (hpos : c → Stays rest a a')
    (hneg : ¬ c → Stays rest b b') : Stays rest (if c then a else b) (if c then a' else b') := by
  by_cases h : c
  · rw [if_pos h, if_pos h]
    exact hpos h
  · rw [if_neg h, if_neg h]
    exact hneg h

theorem stays_ofMark {mark : Mark} {extra : Nat} (h : extra ≤ rest.length) :
    Stays rest (ofMark mark extra) (ofMark mark extra) := fun _ => ⟨rfl, h⟩

theorem stays_pick {second : Char} (double single : Mark) (h : second ≠ '\n') :
    Stays rest (pick second double single rest)
      (pick second double single (rest ++ '\n' :: more)) := by
  cases rest with
  | nil =>
    change Stays [] (ofMark single 0) (if '\n' = second then _ else _)
    rw [if_neg h.symm]
    exact stays_ofMark (Nat.zero_le _)
  | cons c rest =>
    exact .ite (fun _ => stays_ofMark (by simp)) fun _ => stays_ofMark (Nat.zero_le _)

/-- A closer that is found in a text is found whatever follows the text. -/
def Finds (closing? : List Char → Option Nat) : Prop :=
  ∀ body length more, closing? body = some length →
    closing? (body ++ more) = some length ∧ length < body.length

theorem finds_closingAngle (depth : Nat) : Finds (closingAngle? depth) := by
  intro body length more h
  induction body generalizing depth length with
  | nil => cases h
  | cons c rest ih =>
    rw [closingAngle?] at h
    rw [List.cons_append, closingAngle?, List.length_cons]
    split at h
    · obtain rfl := Option.some.inj h
      rw [if_pos ‹_›]
      exact ⟨rfl, Nat.succ_pos _⟩
    · obtain ⟨length, hlength, rfl⟩ := Option.map_eq_some_iff.mp h
      obtain ⟨hmore, hlt⟩ := ih _ _ hlength
      rw [if_neg ‹_›]
      dsimp only
      rw [hmore]
      exact ⟨rfl, Nat.succ_lt_succ hlt⟩

theorem finds_closingQuote : Finds closingQuote? := by
  intro body length more h
  induction body generalizing length with
  | nil => cases h
  | cons c rest ih =>
    rw [closingQuote?] at h
    rw [List.cons_append, closingQuote?, List.length_cons]
    split at h
    · obtain rfl := Option.some.inj h
      rw [if_pos ‹_›]
      exact ⟨rfl, Nat.succ_pos _⟩
    · obtain ⟨length, hlength, rfl⟩ := Option.map_eq_some_iff.mp h
      obtain ⟨hmore, hlt⟩ := ih _ hlength
      rw [if_neg ‹_›, hmore]
      exact ⟨rfl, Nat.succ_lt_succ hlt⟩

theorem stays_literal {style : LiteralStyle} {closing? : List Char → Option Nat} {skip : Nat}
    (hfinds : Finds closing?) (hskip : skip ≤ rest.length) :
    Stays rest (literal style closing? skip rest) (literal style closing? skip (rest ++ more)) := by
  intro hproblem
  rw [literal] at hproblem ⊢
  rw [literal, List.drop_append_of_le_length hskip]
  cases hclosing : closing? (rest.drop skip) with
  | none =>
    rw [hclosing] at hproblem
    cases hproblem
  | some length =>
    obtain ⟨hmore, hlt⟩ := hfinds _ _ more hclosing
    rw [hmore]
    dsimp only
    rw [List.take_append_of_le_length (Nat.le_of_lt hlt)]
    rw [List.length_drop] at hlt
    exact ⟨rfl, by omega⟩

theorem takeWhile_append_newline {p : Char → Bool} (h : p '\n' = false) (rest more : List Char) :
    (rest ++ '\n' :: more).takeWhile p = rest.takeWhile p := by
  induction rest with
  | nil => exact List.takeWhile_cons_of_neg (by rw [h]; exact Bool.false_ne_true)
  | cons c rest ih =>
    by_cases hc : p c = true
    · rw [List.cons_append, List.takeWhile_cons_of_pos hc, List.takeWhile_cons_of_pos hc, ih]
    · rw [List.cons_append, List.takeWhile_cons_of_neg hc, List.takeWhile_cons_of_neg hc]

theorem length_takeWhile_le (p : Char → Bool) (text : List Char) :
    (text.takeWhile p).length ≤ text.length := (List.takeWhile_sublist p).length_le

/-- The number of digits in front. -/
def digits (text : List Char) : Nat := (text.takeWhile Char.isDigit).length

theorem digits_append (rest more : List Char) : digits (rest ++ '\n' :: more) = digits rest := by
  rw [digits, digits, takeWhile_append_newline (by decide)]

theorem numberLength_fraction {first : Char} {rest afterPoint : List Char} (h : first ≠ '.')
    (hdrop : rest.drop (digits rest) = '.' :: afterPoint) :
    numberLength first rest =
      if digits afterPoint = 0 then digits rest else digits rest + 1 + digits afterPoint := by
  rw [digits] at hdrop
  rw [numberLength]
  dsimp only
  rw [if_neg h, hdrop]
  rfl

theorem numberLength_whole {first : Char} {rest : List Char} (h : first ≠ '.')
    (hdrop : ∀ afterPoint, rest.drop (digits rest) ≠ '.' :: afterPoint) :
    numberLength first rest = digits rest := by
  rw [numberLength]
  dsimp only
  rw [if_neg h]
  split
  · rename_i hpoint
    exact absurd hpoint (hdrop _)
  · rfl

theorem numberLength_append (first : Char) (rest more : List Char) :
    numberLength first (rest ++ '\n' :: more) = numberLength first rest ∧
      numberLength first rest ≤ rest.length := by
  have hdigits : digits rest ≤ rest.length := length_takeWhile_le _ _
  by_cases hfirst : first = '.'
  · rw [numberLength, numberLength, if_pos hfirst, if_pos hfirst]
    exact ⟨digits_append rest more, hdigits⟩
  have happend : (rest ++ '\n' :: more).drop (digits (rest ++ '\n' :: more)) =
      rest.drop (digits rest) ++ '\n' :: more := by
    rw [digits_append, List.drop_append_of_le_length hdigits]
  by_cases hpoint : ∃ afterPoint, rest.drop (digits rest) = '.' :: afterPoint
  · obtain ⟨afterPoint, hdrop⟩ := hpoint
    have hlength := congrArg List.length hdrop
    have hfraction : digits afterPoint ≤ afterPoint.length := length_takeWhile_le _ _
    rw [List.length_drop, List.length_cons] at hlength
    rw [hdrop, List.cons_append] at happend
    rw [numberLength_fraction hfirst happend, numberLength_fraction hfirst hdrop, digits_append,
      digits_append]
    refine ⟨rfl, ?_⟩
    split <;> omega
  · have hwhole : ∀ afterPoint, rest.drop (digits rest) ≠ '.' :: afterPoint :=
      fun afterPoint h => hpoint ⟨afterPoint, h⟩
    rw [numberLength_whole hfirst hwhole, numberLength_whole hfirst, digits_append]
    · exact ⟨rfl, hdigits⟩
    · intro afterPoint h
      rw [happend] at h
      cases hdrop : rest.drop (digits rest) with
      | nil =>
        rw [hdrop] at h
        exact absurd (List.cons.inj h).1 (by decide)
      | cons c tail =>
        rw [hdrop] at h
        exact hwhole tail (hdrop.trans (congrArg (· :: tail) (List.cons.inj h).1))

theorem stays_number (first : Char) :
    Stays rest (number first rest) (number first (rest ++ '\n' :: more)) := by
  intro _
  obtain ⟨hlength, hle⟩ := numberLength_append first rest more
  rw [number, number, hlength]
  dsimp only
  rw [List.take_append_of_le_length hle]
  exact ⟨rfl, hle⟩

theorem stays_name (first : Char) :
    Stays rest (name first rest) (name first (rest ++ '\n' :: more)) := by
  intro _
  rw [name, name, takeWhile_append_newline (by decide)]
  exact ⟨rfl, length_takeWhile_le _ _⟩

theorem head?_append_newline {c : Char} (h : c ≠ '\n') (rest more : List Char) :
    (rest ++ '\n' :: more).head? = some c ↔ rest.head? = some c := by
  cases rest with
  | nil => simpa using h.symm
  | cons first rest => rfl

theorem length_of_head? {c : Char} (h : rest.head? = some c) : 1 ≤ rest.length := by
  cases rest with
  | nil => cases h
  | cons first rest => exact Nat.succ_pos _

/-- The token that starts with a character stays when a new line follows the text. -/
theorem stays_read (afterOperand : Bool) (first : Char) (rest more : List Char) :
    Stays rest (read afterOperand first rest) (read afterOperand first (rest ++ '\n' :: more)) := by
  have hdigit : (rest ++ '\n' :: more).head?.any Char.isDigit = rest.head?.any Char.isDigit := by
    cases rest <;> rfl
  unfold read
  simp only [head?_append_newline (c := '&') (by decide),
    head?_append_newline (c := '<') (by decide), head?_append_newline (c := '|') (by decide),
    hdigit]
  cases Mark.ofChar? first with
  | some mark => exact stays_ofMark (Nat.zero_le _)
  | none =>
    dsimp only
    refine .ite (fun _ => stays_pick _ _ (by decide)) fun _ => ?_
    refine .ite (fun _ => stays_pick _ _ (by decide)) fun _ => ?_
    refine .ite (fun _ => stays_pick _ _ (by decide)) fun _ => ?_
    refine .ite (fun _ => .ite (fun _ => stays_pick _ _ (by decide)) fun _ => ?_) fun _ => ?_
    · exact stays_literal (finds_closingAngle 0) (Nat.zero_le _)
    refine .ite (fun h => stays_ofMark (length_of_head? h.2)) fun _ => ?_
    refine .ite (fun h => stays_literal (finds_closingAngle 0) (length_of_head? h.2)) fun _ => ?_
    refine .ite (fun h => stays_literal (finds_closingAngle 0) (length_of_head? h.2)) fun _ => ?_
    refine .ite (fun h => stays_ofMark (length_of_head? h.2)) fun _ => ?_
    refine .ite (fun _ => stays_literal finds_closingQuote (Nat.zero_le _)) fun _ => ?_
    refine .ite (fun _ => .ite (fun _ => stays_number first) fun _ => ?_) fun _ => ?_
    · exact stays_ofMark (Nat.zero_le _)
    refine .ite (fun _ => stays_number first) fun _ => ?_
    refine .ite (fun _ => stays_name first) fun _ => ?_
    exact fun h => by cases h

end Lexeme

/-! ## Token streams -/

/-- The tokens of a text are tokens before the end and the end. -/
theorem TokenStream.exists_inner (afterOperand : Bool) (position : Position) (text : List Char) :
    ∃ part : List Token.Inner, (scan afterOperand position text).tokens =
      part.map Subtype.val ++ [.atEnd (position.advance text)] := by
  obtain ⟨tokens, htokens, hinner⟩ := (scan_cut afterOperand position text).ending
  refine ⟨tokens.attachWith _ fun token h => (hinner token h).1, ?_⟩
  rw [htokens, List.attachWith_map_subtype_val]

namespace TokenStream

/-- A text behind another one that ends in trivia. -/
theorem scan_append_of_trivia {text more : List Char}
    (htrivia : triviaLength false (text ++ more) = text.length + triviaLength false more)
    (afterOperand : Bool) (position : Position) :
    scan afterOperand position (text ++ more) = scan afterOperand (position.advance text) more := by
  have hdrop : (text ++ more).drop (triviaLength false (text ++ more)) =
      more.drop (triviaLength false more) := by
    rw [htrivia, List.drop_length_add_append]
  have htake : position.advance ((text ++ more).take (triviaLength false (text ++ more))) =
      (position.advance text).advance (more.take (triviaLength false more)) := by
    rw [htrivia, List.take_length_add_append, Position.advance_append]
  cases hmore : more.drop (triviaLength false more) with
  | nil => rw [scan_of_nil (hdrop.trans hmore), scan_of_nil hmore, htake]
  | cons first rest => rw [scan_of_cons (hdrop.trans hmore), scan_of_cons hmore, htake]

/-- The tokens of a text without problems stay when a new line follows it. -/
theorem scan_append {afterOperand : Bool} {position : Position} {text : List Char}
    (hclean : (scan afterOperand position text).diagnostics = []) :
    ∃ front afterOperand',
      (scan afterOperand position text).tokens = front ++ [.atEnd (position.advance text)] ∧
      ∀ more, scan afterOperand position (text ++ '\n' :: more) =
        { tokens :=
            front ++ (scan afterOperand' (position.advance text) ('\n' :: more)).tokens
          diagnostics :=
            (scan afterOperand' (position.advance text) ('\n' :: more)).diagnostics } := by
  induction afterOperand, position, text using scan.induct with
  | case1 afterOperand position text skipped h =>
    refine ⟨[], afterOperand, ?_, fun more => ?_⟩
    · have htake : text.take skipped = text := by
        rw [← List.append_nil (text.take skipped), ← h, List.take_append_drop]
      rw [scan_of_nil h, htake]
      rfl
    · exact scan_append_of_trivia (triviaLength_append_of_nil h more) afterOperand position
  | case2 afterOperand position text skipped position' first rest h lexeme lexemeText ih =>
    rw [scan_of_cons h] at hclean
    obtain ⟨hproblem, hfollowing⟩ := List.append_eq_nil_iff.mp hclean
    have hproblem : lexeme.problem = none :=
      Option.map_eq_none_iff.mp (Option.toList_eq_nil_iff.mp hproblem)
    obtain ⟨front, afterOperand', htokens, hmore⟩ := ih hfollowing
    have hadvance : position.advance text =
        (position'.advance lexemeText).advance (rest.drop lexeme.extra) := by
      rw [← Position.advance_append, ← Position.advance_append, List.cons_append,
        List.take_append_drop, ← h, List.take_append_drop]
    have hskipped : skipped ≤ text.length := by
      have hlength := congrArg List.length h
      rw [List.length_drop, List.length_cons] at hlength
      omega
    refine ⟨⟨lexeme.kind, String.ofList lexemeText, position'⟩ :: front, afterOperand', ?_,
      fun more => ?_⟩
    · rw [scan_of_cons h, hadvance]
      exact congrArg (_ :: ·) htokens
    · have hdrop : (text ++ '\n' :: more).drop (triviaLength false (text ++ '\n' :: more)) =
          first :: (rest ++ '\n' :: more) := by
        rw [triviaLength_append_of_cons h, List.drop_append_of_le_length hskipped, h,
          List.cons_append]
      obtain ⟨hread, hextra⟩ := Lexeme.stays_read afterOperand first rest more hproblem
      rw [scan_of_cons hdrop, hread, triviaLength_append_of_cons h,
        List.take_append_of_le_length hskipped]
      dsimp only
      rw [List.take_append_of_le_length hextra, List.drop_append_of_le_length hextra]
      change mk (⟨lexeme.kind, String.ofList lexemeText, position'⟩ ::
          (scan lexeme.kind.endsOperand (position'.advance lexemeText)
            (rest.drop lexeme.extra ++ '\n' :: more)).tokens)
        ((lexeme.problem.map _).toList ++
          (scan lexeme.kind.endsOperand (position'.advance lexemeText)
            (rest.drop lexeme.extra ++ '\n' :: more)).diagnostics) = _
      rw [hproblem, hmore, hadvance]
      rfl

theorem scan_newline (afterOperand : Bool) (position : Position) (more : List Char) :
    scan afterOperand position ('\n' :: more) =
      scan afterOperand (position.next '\n') more :=
  @scan_append_of_trivia ['\n'] more
    ((triviaLength_newline false more).trans (Nat.add_comm _ _)) afterOperand position

theorem scan_semicolon (afterOperand : Bool) (position : Position) (more : List Char) :
    scan afterOperand position (';' :: more) =
      { tokens := ⟨.mark .semicolon, ";", position⟩ ::
          (scan false (position.next ';') more).tokens
        diagnostics := (scan false (position.next ';') more).diagnostics } := by
  rw [@scan_of_cons afterOperand position (';' :: more) more ';' rfl]
  rfl

end TokenStream

/-! ## Literals in which braces hold expressions -/

section

variable {f : Position → Position}

theorem mapM_relocate {α β : Type} {move : β → β} {g g' : α → Except Diagnostic β}
    (h : ∀ a, g' a = relocateOutcome f move (g a)) (items : List α) :
    items.mapM g' = relocateOutcome f (List.map move) (items.mapM g) := by
  induction items with
  | nil => rfl
  | cons a rest ih =>
    rw [List.mapM_cons, List.mapM_cons, h, ih]
    cases g a with
    | error d => rfl
    | ok b => cases rest.mapM g <;> rfl

theorem relocateOutcome_id {α : Type} {move : α → α} (h : ∀ value, move value = value)
    (outcome : Except Diagnostic α) : relocateOutcome id move outcome = outcome := by
  cases outcome with
  | ok value => exact congrArg Except.ok (h value)
  | error d => rfl

namespace Exchange

/-- A text that moves as a whole. -/
def moved (hf : Position.Relocation f)
    (splice : Position → List Char → Except Diagnostic (List Part))
    (hsplice : ∀ position text,
      splice (f position) text = relocateOutcome f (Part.allRelocate f) (splice position text))
    (finish : Position) : Exchange where
  place := f
  splice := splice
  finish := .atEnd finish
  closing := .atEnd (f finish)
  more := []
  relocation := hf
  spliced := hsplice
  finishes := rfl
  closes := .inl rfl

/-- A text that stays, with a semicolon and other tokens in the place of its end. -/
def continued (splice : Position → List Char → Except Diagnostic (List Part))
    (finish semicolon : Position) (more : List Token) : Exchange where
  place := id
  splice := splice
  finish := .atEnd finish
  closing := ⟨.mark .semicolon, ";", semicolon⟩
  more := more
  relocation := Position.id_relocation
  spliced position text := (relocateOutcome_id Part.allRelocate_id (splice position text)).symm
  finishes := rfl
  closes := .inr rfl

end Exchange

theorem spliceWithin_relocate (hf : Position.Relocation f) (depth : Nat) (position : Position)
    (text : List Char) :
    spliceWithin depth (f position) text =
      relocateOutcome f (Part.allRelocate f) (spliceWithin depth position text) := by
  induction depth generalizing position text with
  | zero => rfl
  | succ depth ih =>
    rw [spliceWithin, spliceWithin, funext (Part.allRelocate_eq f)]
    refine mapM_relocate (fun span => ?_) (Literal.spans text)
    cases span with
    | plain run => rfl
    | braced content =>
      obtain ⟨part, hpart⟩ := TokenStream.exists_inner false position content
      let e := Exchange.moved hf (spliceWithin depth) ih (position.advance content)
      have hends : e.Ends := ⟨rfl, rfl⟩
      dsimp only
      rw [TokenStream.ofText, TokenStream.ofText, TokenStream.scan_relocate hf, hpart]
      change Part.expr <$> standalone e.splice ((e.before part).map (Token.relocate e.place)) =
        relocateOutcome f (Part.relocate f) (Part.expr <$> standalone e.splice (e.before part))
      rw [← Exchange.after_eq_map hends, Exchange.standalone_relocate hends]
      cases standalone e.splice (e.before part) <;> rfl

/-- The parts of a literal at another place. -/
theorem splice_relocate (hf : Position.Relocation f) (position : Position) (text : List Char) :
    splice (f position) text =
      relocateOutcome f (Part.allRelocate f) (splice position text) :=
  spliceWithin_relocate hf _ position text

end

/-! ## Scripts -/

/-- The tokens of a text end with its end. -/
theorem ofTokens_ofText (position : Position) (text : List Char) :
    Reader.ofTokens (TokenStream.ofText position text).tokens =
      ⟨(TokenStream.ofText position text).tokens, none⟩ := by
  obtain ⟨part, hpart⟩ := TokenStream.exists_inner false position text
  rw [TokenStream.ofText, hpart, Reader.ofTokens, List.getLast?_concat]
  rfl

/-- A script is what its tokens read as. -/
theorem parse_eq (source : String) :
    parse source =
      ⟨(program splice (TokenStream.ofText .start source.toList).tokens).1,
        (TokenStream.ofText .start source.toList).diagnostics ++
          (program splice (TokenStream.ofText .start source.toList).tokens).2.toList⟩ := by
  rw [parse, ofTokens_ofText]
  rfl

/-- A script whose tokens make up one statement. -/
theorem parse_single {source : String} {stream : TokenStream} {stmt : Stmt} {rest : List Token}
    (hstream : TokenStream.ofText .start source.toList = stream) (hclean : stream.diagnostics = [])
    (hbegins : Begins stream.tokens)
    (hread : (statement splice stream.tokens).outcome = .ok (stmt, rest))
    (hrest : (front rest).kind = .finish) : parse source = ⟨[stmt], []⟩ := by
  have hprogram : program splice stream.tokens = ([stmt], none) :=
    program_cons hbegins.1 hbegins.2.2 hread (program_finish hrest)
  rw [parse_eq, hstream, hclean, hprogram]
  rfl

/-- A script that stops in its first statement. -/
theorem parse_stopped {source : String} {stream : TokenStream} {d : Diagnostic}
    (hstream : TokenStream.ofText .start source.toList = stream) (hbegins : Begins stream.tokens)
    (hread : (statement splice stream.tokens).outcome = .error d) :
    parse source = ⟨[], stream.diagnostics ++ [d]⟩ := by
  rw [parse_eq, hstream, program_error hbegins.1 hbegins.2.2 hread]
  rfl

/-- The tokens of a text without problems, a semicolon on a line of its own and another text. -/
theorem ofText_joined {first second : List Char} {lines : Nat}
    (hlines : (first ++ ['\n', ';', '\n']).count '\n' = lines)
    (hclean : (TokenStream.ofText .start first).diagnostics = []) :
    ∃ (part : List Token.Inner) (finish semicolon : Position),
      (TokenStream.ofText .start first).tokens = part.map Subtype.val ++ [.atEnd finish] ∧
      TokenStream.ofText .start (first ++ ['\n', ';', '\n'] ++ second) =
        { tokens := part.map Subtype.val ++ ⟨.mark .semicolon, ";", semicolon⟩ ::
            (TokenStream.ofText .start second).tokens.map (Token.relocate (Position.down lines))
          diagnostics := (TokenStream.ofText .start second).diagnostics.map
            (Diagnostic.relocate (Position.down lines)) } := by
  obtain ⟨front, afterOperand, htokens, hmore⟩ := TokenStream.scan_append hclean
  obtain ⟨part, hpart⟩ := TokenStream.exists_inner false .start first
  obtain rfl := List.append_cancel_right (htokens.symm.trans hpart)
  have hposition : ((((Position.start.advance first).next '\n').next ';').next '\n') =
      Position.down lines .start := by
    have hline := Position.advance_newline .start (first ++ ['\n', ';'])
    rw [List.append_assoc] at hline
    refine (Position.advance_append .start first ['\n', ';', '\n']).symm.trans (hline.trans ?_)
    rw [← hlines]
    rfl
  refine ⟨part, _, (Position.start.advance first).next '\n', hpart, ?_⟩
  rw [List.append_assoc]
  refine (hmore (';' :: '\n' :: second)).trans ?_
  rw [TokenStream.scan_newline, TokenStream.scan_semicolon, TokenStream.scan_newline, hposition,
    TokenStream.scan_relocate (Position.down_relocation _)]
  rfl

/-- The statements of a text, a semicolon and other tokens. -/
theorem program_joined {part : List Token.Inner} {stmts : List Stmt} {finish : Position}
    (hfirst : program splice (part.map Subtype.val ++ [.atEnd finish]) = (stmts, none))
    (semicolon : Position) (more : List Token) :
    program splice (part.map Subtype.val ++ ⟨.mark .semicolon, ";", semicolon⟩ :: more) =
      (stmts ++ (program splice more).1, (program splice more).2) := by
  have hafter := Exchange.program_after (e := .continued splice finish semicolon more) hfirst
  refine hafter.trans ?_
  change (Stmt.allRelocate id stmts ++ (program splice (_ :: more)).1,
    (program splice (_ :: more)).2) = _
  rw [Stmt.allRelocate_id, program_semicolon rfl]

/-- The statements of a text that moves. -/
theorem program_moved {f : Position → Position} (hf : Position.Relocation f) (text : List Char) :
    program splice ((TokenStream.ofText .start text).tokens.map (Token.relocate f)) =
      (Stmt.allRelocate f (program splice (TokenStream.ofText .start text).tokens).1,
        (program splice (TokenStream.ofText .start text).tokens).2.map
          (Diagnostic.relocate f)) := by
  obtain ⟨part, hpart⟩ := TokenStream.exists_inner false .start text
  let e := Exchange.moved hf splice (splice_relocate hf) (Position.start.advance text)
  have hmoved := Exchange.program_relocate (e := e) ⟨rfl, rfl⟩ part
  rw [Exchange.after_eq_map ⟨rfl, rfl⟩] at hmoved
  rw [TokenStream.ofText, hpart]
  exact hmoved

/-- What two scripts in a row read as: the second one's statements stand some lines further down
behind the first one's, and its problems are the only ones. -/
structure Joined (first second joined : Script) (lines : Nat) : Prop where
  statements : joined.statements =
    first.statements ++ Stmt.allRelocate (Position.down lines) second.statements
  unplaced : Stmt.allUnplaced joined.statements =
    Stmt.allUnplaced first.statements ++ Stmt.allUnplaced second.statements
  diagnostics : joined.diagnostics =
    second.diagnostics.map (Diagnostic.relocate (Position.down lines))

/-- A script without problems ends where a semicolon on a line of its own stands. -/
theorem parse_joined (first second : String) (hclean : (parse first).diagnostics = []) :
    Joined (parse first) (parse second) (parse (first ++ "\n;\n" ++ second))
      ((first ++ "\n;\n").toList.count '\n') := by
  generalize hlines : (first ++ "\n;\n").toList.count '\n' = lines
  have hopening : (first ++ "\n;\n").toList = first.toList ++ ['\n', ';', '\n'] :=
    String.toList_append
  rw [hopening] at hlines
  rw [parse_eq] at hclean
  obtain ⟨hstream, hproblem⟩ := List.append_eq_nil_iff.mp hclean
  obtain ⟨part, finish, semicolon, htokens, hjoined⟩ :=
    @ofText_joined first.toList second.toList lines hlines hstream
  have hfirst : program splice (part.map Subtype.val ++ [.atEnd finish]) =
      ((parse first).statements, none) := by
    rw [parse_eq, htokens]
    rw [htokens] at hproblem
    exact Prod.ext rfl (Option.toList_eq_nil_iff.mp hproblem)
  have hparse : parse (first ++ "\n;\n" ++ second) =
      ⟨(parse first).statements ++
          Stmt.allRelocate (Position.down lines) (parse second).statements,
        (parse second).diagnostics.map (Diagnostic.relocate (Position.down lines))⟩ := by
    rw [parse_eq, parse_eq second, String.toList_append, hopening, hjoined]
    dsimp only
    rw [program_joined hfirst, program_moved (Position.down_relocation lines), List.map_append]
    congr 2
    cases (program splice (TokenStream.ofText .start second.toList).tokens).2 <;> rfl
  rw [hparse]
  refine ⟨rfl, ?_, rfl⟩
  rw [Stmt.allUnplaced_eq, Stmt.allUnplaced_eq, List.map_append, ← Stmt.allUnplaced_eq,
    ← Stmt.allUnplaced_eq, Stmt.allUnplaced_relocate, Stmt.allUnplaced_eq]

/-- A bare `return` and a comment end at their line, and what follows is the second script's. -/
theorem parse_joined_return :
    (parse "func f() \x7b return \x7d f() # done").diagnostics = [] ∧
      Joined (parse "func f() \x7b return \x7d f() # done") (parse "x = ) + 1")
        (parse ("func f() \x7b return \x7d f() # done" ++ "\n;\n" ++ "x = ) + 1")) 2 :=
  ⟨by cbv, parse_joined "func f() \x7b return \x7d f() # done" "x = ) + 1" (by cbv)⟩

end Animatic.Script
