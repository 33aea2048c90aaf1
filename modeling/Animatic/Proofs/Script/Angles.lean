import Animatic.Proofs.Script.Braces
import Animatic.Proofs.Script.Names

/-!
# Texts in angle brackets

A literal in angle brackets ends at the first `>` in front of which no brace is open, where a
closing brace without an open one counts for nothing. So a text between an opener and a `>` makes one
literal exactly if it has no such `>` of its own and leaves no brace open.

* `bracesOpen`: the open braces behind a character.
* `Encloses`: no `>` stands outside the braces of a text, and none of them stays open.
* `closingAngle?_eq_some_iff`: where a literal ends.
* `TokenStream.scan_enclosed`: which texts in angle brackets are one literal.
-/

namespace Animatic.Script

/-! ## Open braces -/

/-- The number of open braces behind a character. -/
def bracesOpen (depth : Nat) (c : Char) : Nat :=
  if c = '\x7b' then depth + 1 else if c = '\x7d' then depth - 1 else depth

/-- With `depth` braces open in front of a text, every `>` of it has an open brace in front of it,
and none is open behind the text. -/
structure Encloses (depth : Nat) (text : List Char) : Prop where
  inside : ∀ before after, text = before ++ '>' :: after → before.foldl bracesOpen depth ≠ 0
  closed : text.foldl bracesOpen depth = 0

theorem encloses_nil {depth : Nat} : Encloses depth [] ↔ depth = 0 :=
  ⟨fun h => h.closed, fun h => ⟨fun _ _ h => absurd h.symm (by simp), h⟩⟩

/-- What a text encloses behind a part of it. -/
theorem Encloses.of_append {depth : Nat} {front back : List Char}
    (h : Encloses depth (front ++ back)) : Encloses (front.foldl bracesOpen depth) back := by
  refine ⟨?_, by rw [← List.foldl_append, h.closed]⟩
  rintro before after rfl
  rw [← List.foldl_append]
  exact h.inside _ after (List.append_assoc front before _).symm

theorem encloses_cons {depth : Nat} {c : Char} {rest : List Char} :
    Encloses depth (c :: rest) ↔ ¬ (c = '>' ∧ depth = 0) ∧ Encloses (bracesOpen depth c) rest := by
  constructor
  · refine fun h => ⟨?_, @Encloses.of_append depth [c] rest h⟩
    rintro ⟨rfl, hdepth⟩
    exact h.inside [] rest rfl hdepth
  · rintro ⟨hangle, hrest⟩
    refine ⟨fun before after htext => ?_, hrest.closed⟩
    cases before with
    | nil =>
      obtain ⟨rfl, -⟩ := List.cons.inj htext
      exact fun hdepth => hangle ⟨rfl, hdepth⟩
    | cons first before =>
      obtain ⟨rfl, hbefore⟩ := List.cons.inj htext
      exact hrest.inside before after hbefore

/-! ## Where a literal ends -/

/-- A literal ends behind a text that encloses every `>` in it. -/
theorem closingAngle?_of_encloses {depth : Nat} {text : List Char} (h : Encloses depth text)
    (more : List Char) : closingAngle? depth (text ++ '>' :: more) = some text.length := by
  induction text generalizing depth with
  | nil => exact if_pos ⟨rfl, encloses_nil.mp h⟩
  | cons c rest ih =>
    obtain ⟨hangle, hrest⟩ := encloses_cons.mp h
    rw [List.cons_append, closingAngle?_cons hangle]
    exact congrArg (Option.map (· + 1)) (ih hrest)

theorem closingAngle?_eq_some_iff {depth length : Nat} {text : List Char} :
    closingAngle? depth text = some length ↔
      ∃ content more, text = content ++ '>' :: more ∧ content.length = length ∧
        Encloses depth content := by
  refine ⟨fun h => ?_, ?_⟩
  · induction text generalizing depth length with
    | nil => cases h
    | cons c rest ih =>
      by_cases hangle : c = '>' ∧ depth = 0
      · rw [closingAngle?, if_pos hangle] at h
        obtain rfl := Option.some.inj h
        exact ⟨[], rest, by rw [hangle.1]; rfl, rfl, encloses_nil.mpr hangle.2⟩
      · rw [closingAngle?_cons hangle] at h
        obtain ⟨inner, hinner, rfl⟩ := Option.map_eq_some_iff.mp h
        obtain ⟨content, more, rfl, rfl, hcontent⟩ := ih hinner
        exact ⟨c :: content, more, rfl, rfl, encloses_cons.mpr ⟨hangle, hcontent⟩⟩
  · rintro ⟨content, more, rfl, rfl, hcontent⟩
    exact closingAngle?_of_encloses hcontent more

theorem encloses_iff {depth : Nat} {text : List Char} :
    Encloses depth text ↔ closingAngle? depth (text ++ ['>']) = some text.length := by
  refine ⟨fun h => closingAngle?_of_encloses h [], fun h => ?_⟩
  obtain ⟨content, more, htext, hlength, hcontent⟩ := closingAngle?_eq_some_iff.mp h
  rwa [(List.append_inj htext hlength.symm).1]

instance (depth : Nat) (text : List Char) : Decidable (Encloses depth text) :=
  decidable_of_iff _ encloses_iff.symm

/-! ## Tokens -/

namespace Lexeme

/-- A literal is closed behind a text that encloses every `>` in it. -/
theorem literal_of_encloses {style : LiteralStyle} {skip : Nat} {rest text more : List Char}
    (hrest : rest.drop skip = text ++ '>' :: more) (h : Encloses 0 text) :
    literal style (closingAngle? 0) skip rest =
      ⟨.literal style (String.ofList text), skip + text.length + 1, none⟩ := by
  rw [literal, hrest, closingAngle?_of_encloses h]
  dsimp only
  rw [List.take_left]

/-- What a closed literal stands for encloses every `>` in it. -/
theorem encloses_of_literal {style style' : LiteralStyle} {skip : Nat} {rest text : List Char}
    (hkind : (literal style (closingAngle? 0) skip rest).kind =
      .literal style' (String.ofList text))
    (hproblem : (literal style (closingAngle? 0) skip rest).problem = none) : Encloses 0 text := by
  rw [literal] at hkind hproblem
  cases hclosing : closingAngle? 0 (rest.drop skip) with
  | none =>
    rw [hclosing] at hproblem
    cases hproblem
  | some length =>
    obtain ⟨content, more, hbody, rfl, hcontent⟩ := closingAngle?_eq_some_iff.mp hclosing
    rw [hclosing, hbody] at hkind
    dsimp only at hkind
    rw [List.take_left] at hkind
    rwa [← String.ofList_injective (Token.Kind.literal.inj hkind).2]

/-- What opens a literal in angle brackets is read as such, but for a `<` behind an operand. -/
theorem read_opener {style : LiteralStyle} {opener : List Char} {afterOperand : Bool}
    (h : style.Delimits opener '>') (hoperand : opener = ['<'] → afterOperand = false) :
    ∃ first more, opener = first :: more ∧ beginsTrivia first = false ∧
      ∀ body, read afterOperand first (more ++ body) =
        literal style (closingAngle? 0) more.length (more ++ body) := by
  cases h with
  | angles =>
    obtain rfl := hoperand rfl
    exact ⟨'<', [], rfl, by decide, fun body => rfl⟩
  | names => exact ⟨'&', ['<'], rfl, by decide, fun body => rfl⟩
  | expressions => exact ⟨'$', ['<'], rfl, by decide, fun body => rfl⟩

end Lexeme

namespace TokenStream

/-- A literal with a content, the end, and no problem. -/
def IsLiteral (content : List Char) (stream : TokenStream) : Prop :=
  ∃ token finish style, stream = ⟨[token, finish], []⟩ ∧
    token.kind = .literal style (String.ofList content) ∧ finish.kind = .finish

variable {style : LiteralStyle} {opener : List Char} {afterOperand : Bool}

/-- A text that encloses every `>` in it is one literal. -/
theorem scan_of_encloses {text : List Char} (h : style.Delimits opener '>')
    (hoperand : opener = ['<'] → afterOperand = false) (hencloses : Encloses 0 text)
    (position : Position) :
    scan afterOperand position (opener ++ text ++ ['>']) =
      { tokens := [⟨.literal style (String.ofList text), String.ofList (opener ++ text ++ ['>']),
          position⟩, .atEnd (position.advance (opener ++ text ++ ['>']))]
        diagnostics := [] } := by
  obtain ⟨first, more, rfl, htrivia, hread⟩ := Lexeme.read_opener h hoperand
  have hlexeme : Lexeme.read afterOperand first (more ++ (text ++ ['>'])) =
      ⟨.literal style (String.ofList text), more.length + text.length + 1, none⟩ :=
    (hread _).trans (Lexeme.literal_of_encloses List.drop_left hencloses)
  have hlength : (more ++ (text ++ ['>'])).length ≤ more.length + text.length + 1 := by
    rw [List.length_append, List.length_append, List.length_singleton, Nat.add_assoc]
  rw [List.append_assoc, List.cons_append, scan_token htrivia, hlexeme]
  dsimp only
  rw [List.take_of_length_le hlength, List.drop_of_length_le hlength, scan_of_nil List.drop_nil]
  rfl

/-- What is read as one literal with a content encloses every `>` in it. -/
theorem encloses_of_isLiteral {position : Position} {text : List Char}
    (h : style.Delimits opener '>') (hoperand : opener = ['<'] → afterOperand = false)
    (hliteral : (scan afterOperand position (opener ++ text ++ ['>'])).IsLiteral text) :
    Encloses 0 text := by
  obtain ⟨token, finish, style', hstream, hkind, -⟩ := hliteral
  obtain ⟨first, more, rfl, htrivia, hread⟩ := Lexeme.read_opener h hoperand
  rw [List.append_assoc, List.cons_append, scan_token htrivia, hread] at hstream
  obtain ⟨htokens, hdiagnostics⟩ := TokenStream.mk.inj hstream
  obtain ⟨rfl, -⟩ := List.cons.inj htokens
  have hproblem := Option.toList_eq_nil_iff.mp (List.append_eq_nil_iff.mp hdiagnostics).1
  exact Lexeme.encloses_of_literal hkind (Option.map_eq_none_iff.mp hproblem)

/-- A text in angle brackets is one literal exactly if it encloses every `>` in it. -/
theorem scan_enclosed (h : style.Delimits opener '>')
    (hoperand : opener = ['<'] → afterOperand = false) (position : Position) (text : List Char) :
    ((scan afterOperand position (opener ++ text ++ ['>'])).IsLiteral text ↔ Encloses 0 text) ∧
      (Encloses 0 text → scan afterOperand position (opener ++ text ++ ['>']) =
        { tokens := [⟨.literal style (String.ofList text), String.ofList (opener ++ text ++ ['>']),
            position⟩, .atEnd (position.advance (opener ++ text ++ ['>']))]
          diagnostics := [] }) :=
  ⟨⟨encloses_of_isLiteral h hoperand, fun hencloses =>
      ⟨_, _, style, scan_of_encloses h hoperand hencloses position, rfl, rfl⟩⟩,
    fun hencloses => scan_of_encloses h hoperand hencloses position⟩

/-- A comparison in braces is part of a literal, and one that no brace is open for ends it. -/
theorem scan_enclosed_comparison :
    LiteralStyle.Delimits .expressions ['$', '<'] '>' ∧ (['$', '<'] = ['<'] → true = false) ∧
      scan true .start "$<a\x7db\x7bc > \x7bd\x7d\x7d>".toList =
        { tokens := [⟨.literal .expressions "a\x7db\x7bc > \x7bd\x7d\x7d",
            "$<a\x7db\x7bc > \x7bd\x7d\x7d>", .start⟩, .atEnd ⟨1, 16⟩]
          diagnostics := [] } ∧
      ¬ (scan true .start ("$<".toList ++ "\x7ba\x7d\x7d > b".toList ++ ['>'])).IsLiteral
        "\x7ba\x7d\x7d > b".toList :=
  ⟨.expressions, by decide,
    (scan_enclosed .expressions nofun .start "a\x7db\x7bc > \x7bd\x7d\x7d".toList).2
      (by decide),
    fun h => absurd ((scan_enclosed .expressions nofun .start _).1.mp h) (by decide)⟩

end TokenStream

end Animatic.Script
