import AdviceMigration.Source.Parse.Cursor
import Mathlib.Tactic.ByContra

/-!
# What a parser looks at

A parser that only looks leaves the cursor alone: it answers something that the cursor determines, or it fails where a token or a piece of the text is missing. `Looks` says so of a parser, whatever is missing, and names its answer; in this way the text that is captured for a node is known as a function of the cursor.
-/

namespace AdviceMigration.Source

open AdviceMigration.Text

/-! ### Captured text as a function of the cursor -/

namespace Cursor

/-- Index just past what stands in front of a token: the token before it, or the comment taken after that one. -/
def endBefore (cursor : Cursor) (index : Nat) : Nat :=
  match cursor.trailingEnd with
  | some (taken, stop) => if taken == index then stop else (cursor.tokenAt (index - 1)).stop
  | none => (cursor.tokenAt (index - 1)).stop

/-- Whether a token is the first thing on its line. -/
def startsLine (cursor : Cursor) (index : Nat) : Bool :=
  let start := (cursor.tokenAt index).start
  (cursor.slice (cursor.lineStart start) start).all isBlank

/-- Index of the first whole line between a token and what stands in front of it, if nothing else shares the line of the latter. -/
def gapStart? (cursor : Cursor) (index : Nat) : Option Nat :=
  if index == 0 then some 0
  else
    let stop := cursor.endBefore index
    match cursor.findLineFeed stop (cursor.source.size - stop) with
    | none => none
    | some lineFeed =>
      if (cursor.slice stop lineFeed).all isBlank then some (lineFeed + 1) else none

/-- The lines between a token that starts its line and what stands in front of it. With `indented` the text goes on up to the token itself. -/
def gap? (cursor : Cursor) (index : Nat) (indented : Bool) : Option (List Char) :=
  let start := (cursor.tokenAt index).start
  let line := cursor.lineStart start
  if cursor.startsLine index then
    match cursor.gapStart? index with
    | none => none
    | some first =>
      if line < first then none else some (cursor.slice first (if indented then start else line))
  else none

/-- The lines in front of a token, captured for a node with these comments. -/
def trivia? (cursor : Cursor) (index : Nat) (comments : List Comment) (blankLineBefore : Bool) :
    Option Trivia :=
  (cursor.gap? index false).map fun chars =>
    ⟨String.ofList (unifyChars chars), comments, blankLineBefore⟩

/-- The lines in front of a closing token, its indentation included. -/
def closingTrivia? (cursor : Cursor) (index : Nat) (comments : List Comment) : Option Trivia :=
  (cursor.gap? index true).map fun chars => ⟨String.ofList (unifyChars chars), comments, false⟩

/-- The text of a node that started at token `index` and ends here, the comment after it included. -/
def capture (cursor : Cursor) (index : Nat) (canonical : String) : Verbatim :=
  let start := (cursor.tokenAt index).start
  let startsLine := cursor.startsLine index
  let first := if startsLine then cursor.lineStart start else start
  ⟨String.ofList (unifyChars (cursor.slice first (cursor.endBefore cursor.position))),
    startsLine, canonical⟩

end Cursor

/-! ### Parsers that look -/

/-- Whether a parser leaves the cursor alone and answers a value, unless it fails. -/
def Looks {α : Type} (parser : Parser α) (cursor : Cursor) (value : α) : Prop :=
  parser cursor = .ok value cursor ∨ ∃ failure, parser cursor = .error failure cursor

namespace Looks

variable {α β : Type} {parser yes no : Parser α} {cursor cursor' : Cursor} {value result : α}

theorem pure (value : α) : Looks (pure value) cursor value := .inl rfl

theorem throw (failure : ParseFailure) : Looks (throw failure) cursor value := .inr ⟨failure, rfl⟩

theorem bind {next : α → Parser β} {value' : β} (h : Looks parser cursor value)
    (hnext : Looks (next value) cursor value') : Looks (parser >>= next) cursor value' := by
  change EStateM.bind parser next cursor = _ ∨ ∃ failure, EStateM.bind parser next cursor = _
  rw [EStateM.bind]
  rcases h with hok | ⟨failure, herror⟩
  · rw [hok]
    exact hnext
  · rw [herror]
    exact .inr ⟨failure, rfl⟩

theorem get : Looks get cursor cursor := .inl rfl

theorem ite {condition : Prop} [Decidable condition] {value' : α} (hyes : Looks yes cursor value)
    (hno : Looks no cursor value') :
    Looks (if condition then yes else no) cursor (if condition then value else value') := by
  split
  · exact hyes
  · exact hno

/-- A condition without which a parser fails. -/
theorem guard {condition : Prop} [Decidable condition] {failure : ParseFailure}
    (h : Looks parser cursor value) :
    Looks (if condition then parser else MonadExcept.throw failure) cursor value := by
  split
  · exact h
  · exact .throw failure

/-- What a parser answers that looks. -/
theorem eq_of_ok (h : Looks parser cursor value) (heq : parser cursor = .ok result cursor') :
    value = result ∧ cursor = cursor' := by
  rcases h with hok | ⟨failure, herror⟩
  · rw [hok] at heq
    cases heq
    exact ⟨rfl, rfl⟩
  · rw [herror] at heq
    cases heq

end Looks

section Captures

variable {cursor : Cursor}

theorem looks_here : Looks here cursor cursor := .bind .get (.guard (.pure cursor))

theorem here_eq (h : cursor.position < cursor.tokens.size) : here cursor = .ok cursor cursor := by
  change (if _ then _ else _ : Parser Cursor) cursor = _
  rw [if_pos h]
  rfl

theorem lt_size_of_here {cursor' : Cursor} {value : Cursor} (h : here cursor = .ok value cursor') :
    cursor.position < cursor.tokens.size := by
  by_contra hnot
  change (if _ then _ else _ : Parser Cursor) cursor = _ at h
  rw [if_neg hnot] at h
  cases h

theorem looks_kind : Looks kind cursor cursor.current.kind := .bind looks_here (.pure _)

theorem looks_atKind (wanted : TokenKind) :
    Looks (atKind wanted) cursor (cursor.current.kind == wanted) := .bind looks_kind (.pure _)

theorem atKind_eq (h : cursor.position < cursor.tokens.size) (wanted : TokenKind) :
    atKind wanted cursor = .ok (cursor.current.kind == wanted) cursor := by
  change EStateM.bind (EStateM.bind here _) _ cursor = _
  rw [EStateM.bind, EStateM.bind, here_eq h]
  rfl

theorem looks_position : Looks position cursor cursor.position := .bind .get (.pure _)

theorem looks_tokenOf (index : Nat) : Looks (tokenOf index) cursor (cursor.tokenAt index) :=
  .bind .get (.guard (.pure _))

theorem looks_checkRange (start stop : Nat) : Looks (checkRange start stop) cursor () :=
  .bind .get (.guard (.pure ()))

theorem looks_cut (start stop : Nat) : Looks (cut start stop) cursor (cursor.slice start stop) :=
  .bind (looks_checkRange start stop) (.bind .get (.pure _))

theorem looks_endBefore (index : Nat) :
    Looks (endBefore index) cursor (cursor.endBefore index) := by
  have htoken : Looks (do return (← tokenOf (index - 1)).stop) cursor
      (cursor.tokenAt (index - 1)).stop := .bind (looks_tokenOf _) (.pure _)
  refine .bind .get ?_
  rw [Cursor.endBefore]
  cases cursor.trailingEnd with
  | none => exact htoken
  | some taken => exact .ite (.pure _) htoken

theorem looks_lineOf (index : Nat) : Looks (lineOf index) cursor
    (cursor.lineStart (cursor.tokenAt index).start, cursor.startsLine index) :=
  .bind (looks_tokenOf index) (.bind .get (.bind (looks_cut _ _) (.pure _)))

theorem looks_gapStart (index : Nat) :
    Looks (gapStart index) cursor (cursor.gapStart? index) := by
  rw [Cursor.gapStart?]
  dsimp only
  refine .ite (.pure _) (.bind (looks_endBefore index) (.bind .get (.bind (looks_checkRange _ _) ?_)))
  cases cursor.findLineFeed (cursor.endBefore index) (cursor.source.size - cursor.endBefore index) with
  | none => exact .pure _
  | some lineFeed => exact .bind (looks_cut _ _) (.ite (.pure _) (.pure _))

theorem looks_gap (index : Nat) (indented : Bool) :
    Looks (gap index indented) cursor (cursor.gap? index indented) := by
  refine .bind (looks_lineOf index) ?_
  refine .ite (.bind (looks_gapStart index) ?_) (.pure _)
  cases cursor.gapStart? index with
  | none => exact .pure _
  | some first =>
    refine .ite (.pure _) ?_
    cases indented with
    | true => exact .bind (looks_tokenOf index) (.bind (.pure _) (.bind (looks_cut _ _) (.pure _)))
    | false => exact .bind (.pure _) (.bind (looks_cut _ _) (.pure _))

theorem looks_trivia (index : Nat) (comments : List Comment) (blankLineBefore : Bool) :
    Looks (trivia index comments blankLineBefore) cursor
      (cursor.trivia? index comments blankLineBefore) :=
  .bind (looks_gap index false) (.pure _)

theorem looks_closingTrivia (index : Nat) (comments : List Comment) :
    Looks (closingTrivia index comments) cursor (cursor.closingTrivia? index comments) :=
  .bind (looks_gap index true) (.pure _)

theorem looks_captureFrom (start : Nat) (canonical : String) :
    Looks (captureFrom start canonical) cursor (cursor.capture start canonical) := by
  refine .bind (looks_lineOf start) (.bind looks_position (.bind (looks_endBefore _) ?_))
  rw [Cursor.capture]
  cases cursor.startsLine start with
  | true => exact .bind (.pure _) (.bind (looks_cut _ _) (.pure _))
  | false => exact .bind (looks_tokenOf start) (.bind (.pure _) (.bind (looks_cut _ _) (.pure _)))

end Captures

end AdviceMigration.Source
