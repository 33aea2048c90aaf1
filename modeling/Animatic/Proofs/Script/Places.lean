import Animatic.Proofs.Script.Joining
import Animatic.Proofs.Script.Words

/-!
# Places in texts and tokens

A text is read by taking characters off its front, and tokens are looked at by their place. Here
what is taken is checked to be there, and nothing comes of a text in which it is not. No check
fails, whatever the text is, and a parser always has tokens in front of it.

* `TokenStream.scan?`, `Literal.spans?`: with checks; `TokenStream.scan?_eq`, `Literal.spans?_eq`:
  what they give.
* `Script.parseOr`: a script, with an alarm where a check fails; `Script.parseOr_eq`: there is none.
* `Sighted`: a parser finds a token wherever it looks; `sighted_ofText`: the tokens of every text.
-/

namespace Animatic.Script

/-! ## Taking from a text -/

/-- The first items of a list, if there are so many. -/
def take? {α : Type} (count : Nat) (items : List α) : Option (List α) :=
  if count ≤ items.length then some (items.take count) else none

theorem take?_eq {α : Type} {count : Nat} {items : List α} (h : count ≤ items.length) :
    take? count items = some (items.take count) := if_pos h

theorem triviaLength_le (inComment : Bool) (text : List Char) :
    triviaLength inComment text ≤ text.length := by
  induction text generalizing inComment with
  | nil => exact Nat.le_refl 0
  | cons c rest ih =>
    rw [triviaLength]
    split
    · exact Nat.succ_le_succ (ih _)
    · split
      · exact Nat.succ_le_succ (ih _)
      · split
        · exact Nat.succ_le_succ (ih _)
        · exact Nat.zero_le _

namespace Lexeme

private theorem extra_ite_le {p : Prop} [Decidable p] {lexeme lexeme' : Lexeme} {size : Nat}
    (h : p → lexeme.extra ≤ size) (h' : ¬ p → lexeme'.extra ≤ size) :
    (if p then lexeme else lexeme').extra ≤ size := by
  split
  · exact h ‹_›
  · exact h' ‹_›

private theorem extra_pick_le (second : Char) (double single : Mark) (rest : List Char) :
    (pick second double single rest).extra ≤ rest.length := by
  cases rest with
  | nil => exact Nat.le_refl 0
  | cons c rest =>
    exact extra_ite_le (fun _ => Nat.succ_le_succ (Nat.zero_le _)) fun _ => Nat.zero_le _

/-- A literal ends with its closer, or with the text. -/
private theorem extra_literal_le {style : LiteralStyle} {closing? : List Char → Option Nat}
    {skip : Nat} {rest : List Char} (hfinds : Finds closing?) (hskip : skip ≤ rest.length) :
    (literal style closing? skip rest).extra ≤ rest.length := by
  rw [literal]
  split
  · rename_i length hlength
    have hlt := (hfinds _ _ [] hlength).2
    rw [List.length_drop] at hlt
    dsimp only
    omega
  · exact Nat.le_refl _

/-- A lexeme takes no more characters than there are. -/
theorem extra_read_le (afterOperand : Bool) (first : Char) (rest : List Char) :
    (read afterOperand first rest).extra ≤ rest.length := by
  have hangle := finds_closingAngle 0
  have hnumber : (number first rest).extra ≤ rest.length := (numberLength_append first rest []).2
  unfold read
  cases Mark.ofChar? first with
  | some mark => exact Nat.zero_le _
  | none =>
    dsimp only
    refine extra_ite_le (fun _ => extra_pick_le _ _ _ rest) fun _ => ?_
    refine extra_ite_le (fun _ => extra_pick_le _ _ _ rest) fun _ => ?_
    refine extra_ite_le (fun _ => extra_pick_le _ _ _ rest) fun _ => ?_
    refine extra_ite_le (fun _ => extra_ite_le (fun _ => extra_pick_le _ _ _ rest) fun _ =>
      extra_literal_le hangle (Nat.zero_le _)) fun _ => ?_
    refine extra_ite_le (fun h => length_of_head? h.2) fun _ => ?_
    refine extra_ite_le (fun h => extra_literal_le hangle (length_of_head? h.2)) fun _ => ?_
    refine extra_ite_le (fun h => extra_literal_le hangle (length_of_head? h.2)) fun _ => ?_
    refine extra_ite_le (fun h => length_of_head? h.2) fun _ => ?_
    refine extra_ite_le (fun _ => extra_literal_le finds_closingQuote (Nat.zero_le _)) fun _ => ?_
    refine extra_ite_le (fun _ => extra_ite_le (fun _ => hnumber) fun _ => Nat.zero_le _)
      fun _ => ?_
    refine extra_ite_le (fun _ => hnumber) fun _ => ?_
    refine extra_ite_le (fun _ => length_takeWhile_le _ rest) fun _ => ?_
    exact Nat.zero_le _

end Lexeme

namespace TokenStream

/-- The tokens of a text whose first character stands at `position`, if every one of them has all
the characters that it takes. -/
def scan? (afterOperand : Bool) (position : Position) (text : List Char) :
    Option TokenStream := do
  let trivia ← take? (triviaLength false text) text
  let position := position.advance trivia
  match _h : text.drop (triviaLength false text) with
  | [] => return ⟨[.atEnd position], []⟩
  | first :: rest =>
    let lexeme := Lexeme.read afterOperand first rest
    let more ← take? lexeme.extra rest
    let lexemeText := first :: more
    let following ← scan? lexeme.kind.endsOperand (position.advance lexemeText)
      (rest.drop lexeme.extra)
    return {
      tokens := ⟨lexeme.kind, String.ofList lexemeText, position⟩ :: following.tokens
      diagnostics :=
        (lexeme.problem.map (Diagnostic.mk · position)).toList ++ following.diagnostics }
termination_by text.length
decreasing_by
  have := congrArg List.length _h
  simp only [List.length_drop, List.length_cons] at this ⊢
  omega

/-- No token takes a character that is not there. -/
theorem scan?_eq (afterOperand : Bool) (position : Position) (text : List Char) :
    scan? afterOperand position text = some (scan afterOperand position text) := by
  induction afterOperand, position, text using scan.induct with
  | case1 afterOperand position text skipped h =>
    rw [scan_of_nil h, scan?, take?_eq (triviaLength_le false text), Option.bind_eq_bind,
      Option.bind_some]
    split
    · rfl
    · rename_i heq
      exact absurd (h.symm.trans heq) (List.cons_ne_nil _ _).symm
  | case2 afterOperand position text skipped position' first rest h lexeme lexemeText ih =>
    rw [scan_of_cons h, scan?, take?_eq (triviaLength_le false text), Option.bind_eq_bind,
      Option.bind_some]
    split
    · rename_i heq
      exact absurd (h.symm.trans heq) (List.cons_ne_nil _ _)
    · rename_i heq
      obtain ⟨rfl, rfl⟩ := List.cons.inj (h.symm.trans heq)
      dsimp only
      rw [take?_eq (Lexeme.extra_read_le afterOperand first rest), Option.bind_eq_bind,
        Option.bind_some, ih]
      rfl

/-- The tokens of a text that starts at `position`, with checks. -/
def ofText? (position : Position) (text : List Char) : Option TokenStream :=
  scan? false position text

theorem ofText?_eq (position : Position) (text : List Char) :
    ofText? position text = some (ofText position text) := scan?_eq false position text

end TokenStream

/-! ## Spans -/

namespace Literal

theorem lt_of_closingBrace? {depth length : Nat} {text : List Char}
    (h : closingBrace? depth text = some length) : length < text.length := by
  induction text generalizing depth length with
  | nil => cases h
  | cons c rest ih =>
    have hmore {depth : Nat} (h : (closingBrace? depth rest).map (· + 1) = some length) :
        length < (c :: rest).length := by
      obtain ⟨inner, hinner, rfl⟩ := Option.map_eq_some_iff.mp h
      exact Nat.succ_lt_succ (ih hinner)
    unfold closingBrace? at h
    split at h
    · cases depth with
      | zero =>
        obtain rfl := Option.some.inj h
        exact Nat.succ_pos _
      | succ depth => exact hmore h
    · exact hmore h

/-- The pieces of a literal, if all their characters are there. -/
def spans? : List Char → Option (List Span)
  | [] => some []
  | c :: rest =>
    match if c = '\x7b' then closingBrace? 0 rest else none with
    | some length => do
      let content ← take? length rest
      let others ← spans? (rest.drop (length + 1))
      return .braced content :: others
    | none => do
      let others ← spans? rest
      return prepend c others
termination_by text => text.length
decreasing_by all_goals simp only [List.length_drop, List.length_cons]; omega

/-- A span ends inside its literal. -/
theorem spans?_eq : (text : List Char) → spans? text = some (spans text)
  | [] => by rw [spans?, spans]
  | c :: rest => by
    rw [spans?, spans]
    cases hspan : if c = '\x7b' then closingBrace? 0 rest else none with
    | some length =>
      have hclosing : closingBrace? 0 rest = some length := by
        split at hspan
        · exact hspan
        · cases hspan
      dsimp only
      rw [take?_eq (Nat.le_of_lt (lt_of_closingBrace? hclosing)), spans?_eq]
      rfl
    | none =>
      dsimp only
      rw [spans?_eq rest]
      rfl
termination_by text => text.length
decreasing_by all_goals simp only [List.length_drop, List.length_cons]; omega

end Literal

/-! ## Scripts -/

/-- The parts of a literal whose braces hold expressions, with `alarm` as the problem where a check
fails. -/
def spliceOr (alarm : Diagnostic) : Nat → Position → List Char → Except Diagnostic (List Part)
  | 0, _, _ => .ok []
  | depth + 1, position, text =>
    match Literal.spans? text with
    | none => .error alarm
    | some spans => spans.mapM fun
      | .plain run => .ok (.text (String.ofList run))
      | .braced content =>
        match TokenStream.ofText? position content with
        | none => .error alarm
        | some stream => .expr <$> standalone (spliceOr alarm depth) stream.tokens

theorem spliceOr_eq (alarm : Diagnostic) (depth : Nat) :
    spliceOr alarm depth = spliceWithin depth := by
  induction depth with
  | zero => rfl
  | succ depth ih =>
    funext position text
    rw [spliceOr, spliceWithin, Literal.spans?_eq]
    refine congrArg (List.mapM · (Literal.spans text)) (funext fun span => ?_)
    cases span with
    | plain run => rfl
    | braced content =>
      dsimp only
      rw [TokenStream.ofText?_eq, ih]

/-- A script, with `alarm` as its only problem if a check of its text fails, and as the problem of
a literal if a check of that fails. -/
def parseOr (alarm : Diagnostic) (source : String) : Script :=
  match TokenStream.ofText? .start source.toList with
  | none => ⟨[], [alarm]⟩
  | some stream =>
    let splice (position : Position) (text : List Char) : Except Diagnostic (List Part) :=
      spliceOr alarm text.length position text
    let (statements, problem) := program splice (Reader.ofTokens stream.tokens).tokens
    ⟨statements, stream.diagnostics ++ problem.toList⟩

/-- Whatever the alarm is, it is not raised. -/
theorem parseOr_eq (alarm : Diagnostic) (source : String) : parseOr alarm source = parse source := by
  have hsplice : (fun (position : Position) (text : List Char) =>
      spliceOr alarm text.length position text) = splice := by
    funext position text
    rw [spliceOr_eq]
    rfl
  rw [parseOr, TokenStream.ofText?_eq, parse_eq]
  dsimp only
  rw [hsplice, ofTokens_ofText]

/-! ## Parsers -/

section

variable {all rest : List Token}

/-- What a parser that has the rest of some tokens in front of it looks at, some tokens ahead: the
token at that place, or the last one if there are not so many. -/
def look? (all rest : List Token) (ahead : Nat) : Option Token :=
  all[min (all.length - rest.length + ahead) (all.length - 1)]?

/-- Where a parser of some tokens can stand: at least the last one is in front of it. -/
structure Inside (all rest : List Token) : Prop where
  suffix : rest <:+ all
  nonempty : rest ≠ []

/-- A parser of some tokens finds one of them wherever it looks, and no reading uses them up. -/
structure Sighted (all : List Token) : Prop where
  looks : ∀ rest ahead, (look? all rest ahead).isSome = true
  /-- It starts with all the tokens in front of it. -/
  start : Inside all all
  /-- What it looks at first is the token in front. -/
  front : ∀ {rest}, Inside all rest → look? all rest 0 = some (front rest)
  expression : ∀ {rest}, Inside all rest → ∀ splice constructors,
    (expression splice constructors rest).Gives fun _ left => Inside all left
  statement : ∀ {rest}, Inside all rest → ∀ splice,
    (statement splice rest).Gives fun _ left => Inside all left

theorem isSome_look? (h : all ≠ []) (rest : List Token) (ahead : Nat) :
    (look? all rest ahead).isSome = true := by
  have hlength : 0 < all.length := List.length_pos_iff.mpr h
  rw [look?, List.getElem?_eq_getElem (by omega)]
  rfl

theorem Inside.look?_zero (h : Inside all rest) : look? all rest 0 = some (front rest) := by
  obtain ⟨⟨taken, rfl⟩, hrest⟩ := h
  have hlength : 0 < rest.length := List.length_pos_iff.mpr hrest
  have hplace : min ((taken ++ rest).length - rest.length + 0) ((taken ++ rest).length - 1) =
      taken.length := by
    rw [List.length_append]
    omega
  rw [look?, hplace, List.getElem?_append_right (Nat.le_refl _), Nat.sub_self]
  cases rest with
  | nil => exact absurd rfl hrest
  | cons token rest => rfl

/-- What is in front of a parser of a text ends with the end of the text. -/
theorem Inside.exists_inner {part : List Token.Inner} {finish : Token}
    (h : Inside (part.map Subtype.val ++ [finish]) rest) :
    ∃ left : List Token.Inner, rest = left.map Subtype.val ++ [finish] := by
  obtain rfl | ⟨inner, rfl, hinner⟩ := List.suffix_concat_iff.mp h.suffix
  · exact absurd rfl h.nonempty
  · obtain ⟨left, -, rfl⟩ := List.suffix_map_iff.mp hinner
    exact ⟨left, rfl⟩

/-- A reading that follows one of a text leaves the end of the text. -/
theorem Exchange.Follows.gives {e : Exchange} {α : Type} {n m : Nat} {move : α → α}
    {r : Read α n} {r' : Read α m} (h : e.Follows move r r') :
    r.Gives fun _ left => left ≠ [] := by
  cases h with
  | ok value part =>
    exact Read.gives_ok (List.length_pos_iff.mp (e.length_before_pos part))
  | error => exact Read.gives_error _

/-- A reading that takes tokens from the front and leaves some leaves a place for a parser. -/
theorem Inside.gives {splice : Position → List Char → Except Diagnostic (List Part)} {α : Type}
    {n : Nat} {r : Read α n} {words : α → List Word} (h : Inside all rest)
    (htaken : r.Gives fun value left => Spelled splice (words value) rest left)
    (hleft : r.Gives fun _ left => left ≠ []) : r.Gives fun _ left => Inside all left := by
  intro value left shorter hread
  obtain ⟨taken, hrest, -⟩ := htaken value left shorter hread
  have hsuffix : left <:+ rest := ⟨taken, hrest.symm⟩
  exact ⟨hsuffix.trans h.suffix, hleft value left shorter hread⟩

/-- A parser finds a token wherever it looks in the tokens of a text. -/
theorem sighted_ofText (position : Position) (text : List Char) :
    Sighted (Reader.ofTokens (TokenStream.ofText position text).tokens).tokens := by
  obtain ⟨part, hpart⟩ := TokenStream.exists_inner false position text
  rw [ofTokens_ofText, TokenStream.ofText, hpart]
  have hnonempty : part.map Subtype.val ++ [Token.atEnd (position.advance text)] ≠ [] :=
    List.append_ne_nil_of_right_ne_nil _ (List.cons_ne_nil _ _)
  -- the text stays where it is, so what follows its readings are these themselves
  let still (splice : Position → List Char → Except Diagnostic (List Part)) : Exchange :=
    .moved Position.id_relocation splice
      (fun place text => (relocateOutcome_id Part.allRelocate_id (splice place text)).symm)
      (position.advance text)
  refine ⟨isSome_look? hnonempty, ⟨List.suffix_rfl, hnonempty⟩, Inside.look?_zero, ?_, ?_⟩
  · intro rest h splice constructors
    obtain ⟨left, rfl⟩ := h.exists_inner
    have hfollows := Exchange.expression_follows (e := still splice) constructors left
    exact h.gives (expression_spelled splice constructors _) hfollows.gives
  · intro rest h splice
    obtain ⟨left, rfl⟩ := h.exists_inner
    have hfollows := Exchange.statement_follows (e := still splice) left
    exact h.gives (statement_spelled splice _) hfollows.gives

end

end Animatic.Script
