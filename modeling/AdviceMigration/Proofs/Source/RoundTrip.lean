import AdviceMigration.Proofs.Source.Lines
import AdviceMigration.Proofs.Source.Productions
import AdviceMigration.Proofs.Text.Newline

/-!
# Untouched text comes back

A text that is read and printed again stays as it is, if its header and its top-level types stand on lines of their own: the printed text is put together from the lines in front of each of them, their own text and the line break after it, and the lines at the end.
-/

namespace AdviceMigration.Source

open AdviceMigration.Text

/-! ### Parsers that succeed -/

theorem eq_ok_of_toOption {ε α : Type} {result : Except ε α} {value : α}
    (h : result.toOption = some value) : result = .ok value := by
  cases result with
  | error error => cases h
  | ok other => exact congrArg Except.ok (Option.some_inj.1 h)

theorem parser_bind_eq_ok {α β : Type} {parser : Parser α} {next : α → Parser β}
    {cursor cursor'' : Cursor} {result : β} :
    (parser >>= next) cursor = .ok result cursor'' ↔ ∃ value cursor',
      parser cursor = .ok value cursor' ∧ next value cursor' = .ok result cursor'' := by
  change EStateM.bind parser next cursor = _ ↔ _
  rw [EStateM.bind]
  split
  next value cursor' hvalue =>
    rw [hvalue]
    exact ⟨fun h => ⟨value, cursor', rfl, h⟩, fun ⟨_, _, heq, h⟩ => by cases heq; exact h⟩
  next failure cursor' hfailure =>
    rw [hfailure]
    exact ⟨nofun, fun ⟨_, _, heq, _⟩ => nomatch heq⟩

/-- Whether a parser that succeeds from a cursor leaves a result and a cursor with a property. -/
def Ends {α : Type} (parser : Parser α) (cursor : Cursor) (post : α → Cursor → Prop) : Prop :=
  ∀ value cursor', parser cursor = .ok value cursor' → post value cursor'

namespace Ends

variable {α β : Type} {post : β → Cursor → Prop} {cursor : Cursor}

theorem bind {parser : Parser α} {next : α → Parser β}
    (h : ∀ value middle, parser cursor = .ok value middle → Ends (next value) middle post) :
    Ends (parser >>= next) cursor post := by
  intro result cursor' heq
  obtain ⟨value, middle, hvalue, hnext⟩ := parser_bind_eq_ok.1 heq
  exact h value middle hvalue result cursor' hnext

theorem ite {condition : Prop} [Decidable condition] {yes no : Parser β}
    (hyes : condition → Ends yes cursor post) (hno : ¬ condition → Ends no cursor post) :
    Ends (if condition then yes else no) cursor post := by
  split
  next h => exact hyes h
  next h => exact hno h

/-- Two parsers to choose from, and what follows either of them. -/
theorem branch {condition : Prop} [Decidable condition] {yes no : Parser α} {next : α → Parser β}
    (h : ∀ value middle, Ends (next value) middle post) :
    Ends (if condition then yes >>= next else no >>= next) cursor post :=
  .ite (fun _ => .bind fun value middle _ => h value middle) fun _ =>
    .bind fun value middle _ => h value middle

theorem complain {wanted : String} : Ends (complain wanted) cursor post :=
  .bind fun _ _ _ _ _ heq => nomatch heq

theorem pure {value : β} (h : post value cursor) : Ends (pure value) cursor post := by
  rintro _ _ ⟨⟩
  exact h

end Ends

namespace Grammar

variable {g : Grammar}

/-- A type declaration is captured where it ends, and prints to the canonical form it was captured with. -/
theorem ends_typeDecl (layout : Layout) (annots : List Annot) (modifiers : List Modifier)
    (first : Nat) (cursor : Cursor) :
    Ends (g.typeDecl layout annots modifiers first) cursor fun decl cursor' =>
      decl.layout = layout.withText (cursor'.capture first (canonicalText decl.ownDoc)) := by
  refine .bind fun kind _ _ => .bind fun _ _ _ => .bind fun name _ _ => ?_
  refine .bind fun typeParams _ _ => .bind fun _ _ _ => .branch fun superTypes _ => ?_
  refine .bind fun _ _ _ => .branch fun interfaces _ => .bind fun _ _ _ => ?_
  refine .ite (fun _ => .complain) fun _ => .bind fun _ _ _ => .branch fun constants _ => ?_
  refine .bind fun (members, comments, closing) _ _ => .bind fun id _ _ => ?_
  refine .bind fun verbatim cursor' hverbatim => ?_
  obtain ⟨rfl, rfl⟩ := (looks_captureFrom _ _).eq_of_ok hverbatim
  exact .pure rfl

theorem ends_typeKind (cursor : Cursor) : Ends typeKind cursor fun _ cursor' =>
    cursor' = cursor ∧ cursor.current.kind ≠ .eof := by
  refine .bind fun kind middle hkind => ?_
  obtain ⟨rfl, rfl⟩ := looks_kind.eq_of_ok hkind
  split
  next hkind => exact .pure ⟨rfl, hkind ▸ nofun⟩
  next hkind => exact .pure ⟨rfl, hkind ▸ nofun⟩
  next hkind => exact .pure ⟨rfl, hkind ▸ nofun⟩
  next => exact .bind fun _ _ _ => .ite (fun _ => .complain) fun _ => .complain
  next => exact .bind fun _ _ _ => .ite (fun _ => .complain) fun _ => .complain

end Grammar

theorem ends_takeComments (cursor : Cursor) : Ends takeComments cursor fun _ cursor' =>
    cursor.Onward cursor' ∧ cursor'.position = cursor.position := by
  intro comments cursor' h
  refine ⟨(proceeds_takeComments.ok (Nat.zero_le _) h).1, ?_⟩
  obtain ⟨_, _, hhere, htake⟩ := parser_bind_eq_ok.1 h
  obtain ⟨rfl, rfl⟩ := looks_here.eq_of_ok hhere
  cases htake
  rfl

theorem ends_takeLayout (cursor : Cursor) : Ends takeLayout cursor fun layout cursor' =>
    cursor.Onward cursor' ∧ cursor'.position = cursor.position ∧ ∃ comments blank,
      layout = ⟨comments, blank, cursor'.trivia? cursor.position comments blank, none⟩ := by
  refine .bind fun (comments, blank) middle htake => ?_
  obtain ⟨honward, hposition⟩ := ends_takeComments _ _ _ htake
  refine .bind fun _ _ hposition' => ?_
  obtain ⟨rfl, rfl⟩ := looks_position.eq_of_ok hposition'
  refine .bind fun leading _ hleading => ?_
  obtain ⟨rfl, rfl⟩ := (looks_trivia _ _ _).eq_of_ok hleading
  exact .pure ⟨honward, hposition, comments, blank, by rw [hposition]⟩

/-! ### Declarations take tokens -/

section Positions

variable {start cursor cursor' : Cursor} (hstart : start.Unread) (honward : start.Onward cursor)

theorem Cursor.Onward.kind_tokenAt {cursor cursor' : Cursor} (h : cursor.Onward cursor')
    (index : Nat) : (cursor'.tokenAt index).kind = (cursor.tokenAt index).kind := by
  have hbare := congrArg Token.kind (h.bare index)
  exact hbare

include hstart honward

theorem one_lt_size (hkind : cursor.current.kind ≠ .eof) : 1 < start.tokens.size := by
  rw [Cursor.current, honward.kind_tokenAt] at hkind
  exact Nat.lt_of_le_of_lt (Nat.le_add_left 1 _) (hstart.lt_size_of_kind hkind)

/-- A token that is not the last one is passed. -/
theorem bump_eq (hkind : cursor.current.kind ≠ .eof) :
    bump cursor = .ok () { cursor with position := cursor.position + 1 } := by
  rw [Cursor.current, honward.kind_tokenAt] at hkind
  have hlt := hstart.lt_size_of_kind hkind
  rw [← honward.size] at hlt
  change EStateM.Result.ok () (if _ then _ else _) = _
  rw [if_pos hlt]

/-- What comes after a token that is passed ends behind it. -/
theorem position_lt_of_bump {α : Type} {rest : Parser α} {ids : α → List NodeId}
    (hrest : ∀ floor, Reads floor [] rest ids) (hkind : cursor.current.kind ≠ .eof) :
    Ends (bump >>= fun _ => rest) cursor fun _ cursor' => cursor.position < cursor'.position := by
  refine .bind fun _ passed hpassed => ?_
  rw [bump_eq hstart honward hkind] at hpassed
  cases hpassed
  exact fun value cursor' h => ((hrest _).ok (Nat.le_refl _) h).2.1

theorem position_lt_typeDecl {g : Grammar} (horderly : g.Orderly) (layout : Layout)
    (annots : List Annot) (modifiers : List Modifier) (first : Nat) :
    Ends (g.typeDecl layout annots modifiers first) cursor fun _ cursor' =>
      cursor.position < cursor'.position := by
  obtain ⟨rest, heq, hrest⟩ := Grammar.exists_typeDecl_eq horderly layout annots modifiers first
  rw [heq]
  refine .bind fun kind middle hkind => ?_
  obtain ⟨rfl, hnot⟩ := Grammar.ends_typeKind _ _ _ hkind
  exact position_lt_of_bump hstart honward (fun floor => hrest floor kind) hnot

/-- A keyword that is passed together with the comments in front of it. -/
theorem position_lt_of_takeComments {α : Type} {rest : List Comment × Bool → Parser α}
    (hrest : ∀ floor comments, Proceeds floor (rest comments)) (hkind : cursor.current.kind ≠ .eof) :
    Ends (do let comments ← takeComments; bump; rest comments) cursor fun _ cursor' =>
      cursor.position < cursor'.position := by
  refine .bind fun comments middle htake => ?_
  obtain ⟨hmiddle, hposition⟩ := ends_takeComments _ _ _ htake
  have hnot : middle.current.kind ≠ .eof := by
    rwa [Cursor.current, hposition, hmiddle.kind_tokenAt]
  have hlt := position_lt_of_bump hstart (honward.trans hmiddle) (fun floor => hrest floor comments) hnot
  rwa [hposition] at hlt

/-- Whether a part of the header, which may be missing, takes tokens unless it is. -/
def Takes (start cursor cursor' : Cursor) (isMissing : Prop) : Prop :=
  cursor.position < cursor'.position ∧ 1 < start.tokens.size ∨ isMissing ∧ cursor' = cursor

theorem takes_packageDecl : Ends Grammar.packageDecl cursor fun package cursor' =>
    Takes start cursor cursor' (package = none) := by
  obtain ⟨rest, heq, hrest⟩ := Grammar.exists_packageDecl_eq
  rw [heq]
  refine .bind fun here middle hhere => ?_
  obtain ⟨rfl, rfl⟩ := (looks_atKind _).eq_of_ok hhere
  refine .ite (fun hhere => ?_) fun _ => .pure (.inr ⟨rfl, rfl⟩)
  have hnot : cursor.current.kind ≠ .eof := by
    rw [beq_iff_eq.1 hhere]
    exact nofun
  exact fun value cursor' h => .inl ⟨position_lt_of_takeComments hstart honward hrest hnot _ _ h,
    one_lt_size hstart honward hnot⟩

theorem takes_imports :
    Ends (manyWhile (atKeyword .importKw) Grammar.importDecl) cursor fun imports cursor' =>
      Takes start cursor cursor' (imports = []) := by
  refine .bind fun _ middle hget => ?_
  cases hget
  rw [iterate]
  refine .bind fun step middle hstep => ?_
  obtain ⟨here, _, hhere, hstep⟩ := parser_bind_eq_ok.1 hstep
  obtain ⟨rfl, rfl⟩ := (looks_atKind _).eq_of_ok hhere
  split at hstep
  next hhere =>
    obtain ⟨decl, _, hdecl, hstep⟩ := parser_bind_eq_ok.1 hstep
    cases hstep
    have hnot : cursor.current.kind ≠ .eof := by
      rw [beq_iff_eq.1 hhere]
      exact nofun
    obtain ⟨rest, heq, hrest⟩ := Grammar.exists_importDecl_eq
    rw [heq] at hdecl
    have hlt := position_lt_of_takeComments hstart honward hrest hnot _ _ hdecl
    intro imports cursor' h
    have hloop := reads_iterate (reads_manyStep (proceeds_atKeyword .importKw)
      (@Grammar.proceeds_importDecl middle.position)) cursor.tokens.size [decl]
    exact .inl ⟨Nat.lt_of_lt_of_le hlt (hloop.ok (Nat.le_refl _) h).2.1,
      one_lt_size hstart honward hnot⟩
  next =>
    cases hstep
    exact .pure (.inr ⟨rfl, rfl⟩)

end Positions

/-! ### Lines between declarations -/

/-- Whether the lines in front of a token start at a character: at the start of the text, or after the line break behind the token before it. -/
inductive Cursor.LinesFrom (start : Cursor) (style : NewlineStyle) : (index offset : Nat) → Prop where
  | first : LinesFrom start style 0 0
  | next {index : Nat} (hbreak : style.text.toList <+:
      start.source.toList.drop (start.tokenAt index).stop) :
    LinesFrom start style (index + 1) ((start.tokenAt index).stop + style.text.toList.length)

section Lines

variable {start cursor : Cursor} {style : NewlineStyle} {index offset : Nat}

namespace Cursor.LinesFrom

theorem gapStart?_eq (h : start.LinesFrom style index offset) (hstart : start.Unread)
    (honward : start.Onward cursor) : cursor.gapStart? index = some offset := by
  cases h with
  | first => rfl
  | next hbreak => exact hstart.gapStart?_eq honward hbreak

theorem le_start (h : start.LinesFrom style index offset) (hstart : start.Unread)
    (hindex : index < start.tokens.size) :
    offset ≤ start.lineStart (start.tokenAt index).start := by
  cases h with
  | first => exact Nat.zero_le _
  | @next index hbreak =>
    have hle := (hstart.apart hbreak).2 hindex
    obtain ⟨lineFeed, -, hlength, hfeed, -⟩ := start.findLineFeed_of_lineBreak hbreak
    rw [← hlength] at hle ⊢
    exact start.le_lineStart hfeed hle

end Cursor.LinesFrom

/-- The text from a line on, with bare line breaks: the whole lines up to another line, the rest up to a line break, and what comes after it. -/
theorem unifyChars_drop (huniform : style.Uniform start.source.toList) {line stop : Nat}
    (hle : offset ≤ start.lineStart line) (hle' : start.lineStart line ≤ stop)
    (hbreak : style.text.toList <+: start.source.toList.drop stop) :
    unifyChars (start.source.toList.drop offset) =
      unifyChars (start.slice offset (start.lineStart line)) ++
        unifyChars (start.slice (start.lineStart line) stop) ++
        '\n' :: unifyChars (start.source.toList.drop (stop + style.text.toList.length)) := by
  obtain ⟨later, hlater⟩ := hbreak
  have hdrop : start.source.toList.drop (stop + style.text.toList.length) = later := by
    rw [← List.drop_drop, ← hlater, List.drop_left]
  have hlines : (start.slice offset (start.lineStart line)).getLast? ≠ some '\r' := by
    rcases start.lineStart_eq_zero_or line with hzero | ⟨before, hbefore, hfeed⟩
    · rw [hzero, start.slice_eq, Nat.zero_sub, List.take_zero]
      exact nofun
    · rw [hbefore] at hle ⊢
      rcases Nat.lt_or_eq_of_le hle with hlt | rfl
      · rw [start.slice_succ (Nat.le_of_lt_succ hlt) hfeed, List.getLast?_concat]
        decide
      · rw [start.slice_eq, Nat.sub_self, List.take_zero]
        exact nofun
  rw [← start.slice_append_drop hle, unifyChars_append (.inl hlines), List.append_assoc, hdrop,
    ← start.slice_append_drop hle', ← hlater]
  refine congrArg _ (unifyChars_append_lineBreak huniform ?_)
  rw [hlater, start.slice_append_drop hle']
  exact (List.drop_suffix _ _).isInfix

end Lines

/-! ### Printed texts -/

/-- Whether a document adds certain characters to any output. -/
def Doc.Writes (doc : Doc) (chars : List Char) : Prop :=
  ∀ output, doc.foldl Piece.writeTo output = chars.reverse ++ output

namespace Doc.Writes

theorem nil : Doc.Writes [] [] := fun _ => rfl

theorem txt (text : String) : Doc.Writes (txt text) text.toList := fun _ => rfl

theorem append {doc doc' : Doc} {chars chars' : List Char} (h : doc.Writes chars)
    (h' : doc'.Writes chars') : Doc.Writes (doc ++ doc') (chars ++ chars') := by
  intro output
  rw [List.foldl_append, h, h', List.reverse_append, List.append_assoc]

theorem render_eq {doc : Doc} {chars : List Char} (h : doc.Writes chars) :
    render doc = String.ofList chars := by
  rw [render, h, List.append_nil, List.reverse_reverse]

end Doc.Writes

theorem doc?_captured {printing : Style} (hpreserve : printing.options.preserve = true)
    (text : String) (comments : List Comment) (blank : Bool) :
    Trivia.doc? (some ⟨text, comments, blank⟩) comments blank printing = some (txt text) := by
  simp [Trivia.doc?, Trivia.textFor?, hpreserve]

theorem reuse_captured {printing : Style} (hpreserve : printing.options.preserve = true)
    (text : String) (own : Style → Doc) :
    reuse (some ⟨text, true, canonicalText own⟩) own printing = txt text := by
  simp [reuse, hpreserve]

/-- A type declaration that was captured with the lines in front of it is printed as it was captured. -/
theorem writes_typeDoc {printing : Style} (hpreserve : printing.options.preserve = true)
    {decl : TypeDecl} {lines own : List Char} {comments : List Comment} {blank : Bool}
    (hlayout : decl.layout = ⟨comments, blank, some ⟨String.ofList lines, comments, blank⟩,
      some ⟨String.ofList own, true, canonicalText decl.ownDoc⟩⟩) :
    Doc.Writes (CompilationUnit.typeDoc printing decl) (lines ++ own ++ ['\n']) := by
  have hlines := Doc.Writes.txt (String.ofList lines)
  have hown := Doc.Writes.txt (String.ofList own)
  rw [String.toList_ofList] at hlines hown
  rw [CompilationUnit.typeDoc, hlayout]
  dsimp only
  rw [doc?_captured hpreserve, reuse_captured hpreserve]
  exact (hlines.append hown).append (.txt "\n")

/-! ### One declaration -/

section Declarations

variable {start cursor : Cursor} {style : NewlineStyle} {index offset : Nat}
  (hstart : start.Unread) (honward : start.Onward cursor)

include hstart honward

/-- The lines in front of a token that starts its line are captured whole. -/
theorem trivia?_eq (hfrom : start.LinesFrom style index offset) (hindex : index < start.tokens.size)
    (hblank : ∀ c ∈ lineBefore start.source.toList (start.tokenAt index).start, isBlank c = true)
    (comments : List Comment) (blank : Bool) :
    cursor.trivia? index comments blank = some ⟨String.ofList (unifyChars
      (start.slice offset (start.lineStart (start.tokenAt index).start))), comments, blank⟩ := by
  have hgap := hstart.gap?_eq honward hindex hblank (hfrom.gapStart?_eq hstart honward)
    (hfrom.le_start hstart hindex) false
  rw [Cursor.trivia?, hgap]
  rfl

/-- The text of a declaration that starts its line is captured from the start of the line on. -/
theorem capture_eq (hindex : index < start.tokens.size)
    (hblank : ∀ c ∈ lineBefore start.source.toList (start.tokenAt index).start, isBlank c = true)
    (hlt : 0 < cursor.position)
    (hbreak : style.text.toList <+:
      start.source.toList.drop (start.tokenAt (cursor.position - 1)).stop) (canonical : String) :
    cursor.capture index canonical = ⟨String.ofList (unifyChars (start.slice
      (start.lineStart (start.tokenAt index).start) (start.tokenAt (cursor.position - 1)).stop)),
      true, canonical⟩ := by
  have hstarts := hstart.startsLine_eq honward hindex hblank
  have hapart := (hstart.apart hbreak).1
  rw [Nat.sub_add_cancel hlt] at hapart
  rw [Cursor.capture]
  simp only [hstarts, if_true, hstart.endBefore_eq honward hapart, honward.start_tokenAt,
    Cursor.slice_congr honward.source, Cursor.lineStart_congr honward.source]

theorem ends_topLevelType {g : Grammar} (horderly : g.Orderly) :
    Ends g.topLevelType cursor fun decl cursor' =>
      start.Onward cursor' ∧ cursor.position < cursor'.position ∧
      ∃ comments blank middle, start.Onward middle ∧
        decl.layout = ⟨comments, blank, middle.trivia? cursor.position comments blank,
          some (cursor'.capture cursor.position (canonicalText decl.ownDoc))⟩ := by
  refine .bind fun layout middle hlayout => ?_
  obtain ⟨hmiddle, hposition, comments, blank, rfl⟩ := ends_takeLayout _ _ _ hlayout
  refine .bind fun first _ hfirst => ?_
  cases hfirst
  refine .bind fun (annots, modifiers) after hmodifiers => ?_
  obtain ⟨hafter, hle, -⟩ := (Grammar.proceeds_modifiers horderly).ok (Nat.le_refl _) hmodifiers
  intro decl cursor' hdecl
  have hbefore := (honward.trans hmiddle).trans hafter
  have hlt := position_lt_typeDecl hstart hbefore horderly _ _ _ _ _ _ hdecl
  obtain ⟨honward', -, -⟩ := (Grammar.reads_typeDecl horderly _ _ _ _).ok (Nat.zero_le _) hdecl
  have hlayout' := Grammar.ends_typeDecl _ _ _ _ _ _ _ hdecl
  rw [hposition] at hle hlayout'
  exact ⟨hbefore.trans honward', Nat.lt_of_le_of_lt hle hlt, comments, blank, middle,
    honward.trans hmiddle, hlayout'⟩

end Declarations

/-! ### Ranges of declarations -/

/-- The tokens of a declaration, given by the index of the first and the index past the last. -/
structure TokenRange where
  first : Nat
  past : Nat
  deriving DecidableEq, Repr

namespace Grammar

/-- Finds something for each type declaration up to the end of the text. -/
def eachType {α : Type} (act : Parser α) (found : List α) : Parser (LoopStep (List α) (List α)) := do
  if ← eatPunct .semicolon then return .continue found
  else if ← atKind .eof then return .done found.reverse
  else
    let item ← act
    return .continue (item :: found)

/-- The tokens of a type declaration. -/
def typeRange (g : Grammar) : Parser TokenRange := do
  let first ← position
  let _ ← g.topLevelType
  return ⟨first, ← position⟩

/-- The tokens of each type declaration up to the end of the text. -/
def typeRanges (g : Grammar) : Parser (List TokenRange) := loop (eachType g.typeRange) []

/-- The tokens of the header, if there is one, and of each type declaration. -/
def declRanges (g : Grammar) : Parser (List TokenRange) := do
  let first ← position
  let package ← packageDecl
  let imports ← manyWhile (atKeyword .importKw) importDecl
  let past ← position
  let ranges ← g.typeRanges
  return if package.isSome || !imports.isEmpty then ⟨first, past⟩ :: ranges else ranges

end Grammar

/-- Whether ranges follow one another from one index to another, with no token in between. -/
inductive Adjacent : (index : Nat) → List TokenRange → (past : Nat) → Prop where
  | nil {index : Nat} : Adjacent index [] index
  | cons {range : TokenRange} {rest : List TokenRange} {past : Nat}
      (h : Adjacent range.past rest past) : Adjacent range.first (range :: rest) past

theorem adjacent_nil {index past : Nat} : Adjacent index [] past ↔ index = past :=
  ⟨fun | .nil => rfl, fun h => h ▸ .nil⟩

theorem adjacent_cons {index past : Nat} {range : TokenRange} {rest : List TokenRange} :
    Adjacent index (range :: rest) past ↔ range.first = index ∧ Adjacent range.past rest past :=
  ⟨fun | .cons h => ⟨rfl, h⟩, fun ⟨heq, h⟩ => heq ▸ .cons h⟩

instance decidableAdjacent : (index : Nat) → (ranges : List TokenRange) → (past : Nat) →
    Decidable (Adjacent index ranges past)
  | _, [], _ => decidable_of_iff' _ adjacent_nil
  | _, range :: rest, past =>
    have := decidableAdjacent range.past rest past
    decidable_of_iff' _ adjacent_cons

/-- The cursor at the next token, if there is one. -/
def Cursor.next (cursor : Cursor) : Cursor :=
  if cursor.position + 1 < cursor.tokens.size then { cursor with position := cursor.position + 1 }
  else cursor

theorem bump_eq_next (cursor : Cursor) : bump cursor = .ok () cursor.next := rfl

theorem eatPunct_bind {α : Type} (punct : Punct) (next : Bool → Parser α) {cursor : Cursor}
    (h : cursor.position < cursor.tokens.size) : (eatPunct punct >>= next) cursor =
      if cursor.current.kind = .punct punct then next true cursor.next else next false cursor := by
  have heat : eatPunct punct cursor = (if cursor.current.kind == .punct punct then
      (do bump; return true : Parser Bool) else return false) cursor := by
    change EStateM.bind (atKind _) _ cursor = _
    rw [EStateM.bind, atKind_eq h]
  change EStateM.bind (eatPunct punct) next cursor = _
  rw [EStateM.bind, heat]
  by_cases hkind : cursor.current.kind = .punct punct
  · rw [if_pos (beq_iff_eq.2 hkind), if_pos hkind]
    rfl
  · rw [if_neg (mt beq_iff_eq.1 hkind), if_neg hkind]
    rfl

/-- Whether type declarations are read from one cursor to another, with stray semicolons between them. -/
inductive ReadsTypes (g : Grammar) :
    Cursor → List TokenRange → List TypeDecl → Cursor → Prop where
  | done {cursor : Cursor} (h : cursor.current.kind = .eof) : ReadsTypes g cursor [] [] cursor
  | stray {cursor cursor' : Cursor} {ranges : List TokenRange} {types : List TypeDecl}
      (h : cursor.current.kind = .punct .semicolon)
      (hrest : ReadsTypes g cursor.next ranges types cursor') :
      ReadsTypes g cursor ranges types cursor'
  | type {cursor middle cursor' : Cursor} {decl : TypeDecl} {ranges : List TokenRange}
      {types : List TypeDecl} (h : cursor.current.kind ≠ .eof)
      (hdecl : g.topLevelType cursor = .ok decl middle)
      (hrest : ReadsTypes g middle ranges types cursor') :
      ReadsTypes g cursor (⟨cursor.position, middle.position⟩ :: ranges) (decl :: types) cursor'

namespace Grammar

variable {g : Grammar}

theorem lt_size_of_eachType {α : Type} {act : Parser α} {fuel : Nat} {found result : List α}
    {cursor cursor' : Cursor} (h : iterate (eachType act) (fuel + 1) found cursor = .ok result cursor') :
    cursor.position < cursor.tokens.size := by
  obtain ⟨_, _, hstep, -⟩ := parser_bind_eq_ok.1 h
  obtain ⟨_, _, heat, -⟩ := parser_bind_eq_ok.1 hstep
  obtain ⟨_, _, hkind, -⟩ := parser_bind_eq_ok.1 heat
  obtain ⟨_, _, hkind, -⟩ := parser_bind_eq_ok.1 hkind
  obtain ⟨_, _, hhere, -⟩ := parser_bind_eq_ok.1 hkind
  exact lt_size_of_here hhere

theorem iterate_eachType {α : Type} (act : Parser α) (fuel : Nat) (found : List α)
    {cursor : Cursor} (h : cursor.position < cursor.tokens.size) :
    iterate (eachType act) (fuel + 1) found cursor =
      if cursor.current.kind = .punct .semicolon then
        iterate (eachType act) fuel found cursor.next
      else if cursor.current.kind = .eof then .ok found.reverse cursor
      else (act >>= fun item => iterate (eachType act) fuel (item :: found)) cursor := by
  rw [iterate, eachType, bind_assoc, eatPunct_bind _ _ h]
  congr 1
  simp only [Bool.false_eq_true, if_false]
  rw [bind_assoc]
  change EStateM.bind (atKind .eof) _ cursor = _
  rw [EStateM.bind, atKind_eq h]
  change ((if cursor.current.kind == .eof then _ else _ : Parser _) >>= _) cursor = _
  by_cases hkind : cursor.current.kind = .eof
  · rw [if_pos (beq_iff_eq.2 hkind), if_pos hkind]
    rfl
  · rw [if_neg (mt beq_iff_eq.1 hkind), if_neg hkind, bind_assoc]
    rfl

end Grammar

/-- The ranges of type declarations are found where the declarations are read. -/
theorem exists_readsTypes {g : Grammar} {cursor cursor' : Cursor} {types : List TypeDecl}
    (h : g.topLevelTypes cursor = .ok types cursor') : ∃ ranges,
      ReadsTypes g cursor ranges types cursor' ∧ g.typeRanges cursor = .ok ranges cursor' := by
  have hiterate : ∀ (fuel : Nat) (cursor : Cursor) (earlier : List TypeDecl)
      (before : List TokenRange) (result : List TypeDecl),
      iterate (Grammar.eachType g.topLevelType) fuel earlier cursor = .ok result cursor' →
      ∃ ranges types, ReadsTypes g cursor ranges types cursor' ∧ result = earlier.reverse ++ types ∧
        iterate (Grammar.eachType g.typeRange) fuel before cursor =
          .ok (before.reverse ++ ranges) cursor' := by
    intro fuel
    induction fuel with
    | zero => exact nofun
    | succ fuel ih =>
      intro cursor earlier before result h
      have hlt := Grammar.lt_size_of_eachType h
      rw [Grammar.iterate_eachType _ _ _ hlt] at h ⊢
      split at h
      next hstray =>
        obtain ⟨ranges, types, hreads, rfl, hranges⟩ := ih _ earlier before _ h
        exact ⟨ranges, types, .stray hstray hreads, rfl, by rw [if_pos hstray, hranges]⟩
      next hnot =>
        split at h
        next hend =>
          cases h
          exact ⟨[], [], .done hend, (List.append_nil _).symm,
            by rw [if_neg hnot, if_pos hend, List.append_nil]⟩
        next hsome =>
          obtain ⟨decl, middle, hdecl, h⟩ := parser_bind_eq_ok.1 h
          obtain ⟨ranges, types, hreads, rfl, hranges⟩ :=
            ih _ (decl :: earlier) (⟨cursor.position, middle.position⟩ :: before) _ h
          have hrange : g.typeRange cursor = .ok ⟨cursor.position, middle.position⟩ middle :=
            parser_bind_eq_ok.2 ⟨_, _, rfl, parser_bind_eq_ok.2 ⟨_, _, hdecl, rfl⟩⟩
          refine ⟨_, _, .type hsome hdecl hreads, by simp, ?_⟩
          rw [if_neg hnot, if_neg hsome, parser_bind_eq_ok.2 ⟨_, _, hrange, hranges⟩]
          simp
  obtain ⟨ranges, types, hreads, rfl, hranges⟩ := hiterate _ cursor [] [] _ h
  exact ⟨ranges, hreads, hranges⟩

namespace ReadsTypes

variable {g : Grammar} {start cursor cursor' : Cursor} {ranges : List TokenRange}
  {types : List TypeDecl} (h : ReadsTypes g cursor ranges types cursor')

include h

/-- Reading goes on, and no range starts earlier than the first cursor. -/
theorem onward (horderly : g.Orderly) : cursor.Onward cursor' ∧
    cursor.position ≤ cursor'.position ∧ ∀ range ∈ ranges.head?, cursor.position ≤ range.first := by
  induction h with
  | done => exact ⟨.refl _, Nat.le_refl _, nofun⟩
  | @stray cursor _ _ _ hstray hrest ih =>
    obtain ⟨honward, hle, hranges⟩ := ih
    obtain ⟨hnext, hle', -⟩ := proceeds_bump.ok (Nat.le_refl _) (bump_eq_next cursor)
    exact ⟨hnext.trans honward, Nat.le_trans hle' hle, fun range hrange =>
      Nat.le_trans hle' (hranges range hrange)⟩
  | type hsome hdecl hrest ih =>
    obtain ⟨hnext, hle', -⟩ := (Grammar.reads_topLevelType horderly).ok (Nat.le_refl _) hdecl
    refine ⟨hnext.trans ih.1, Nat.le_trans hle' ih.2.1, ?_⟩
    rintro range ⟨⟩
    exact Nat.le_refl _

/-- Type declarations on lines of their own, with nothing between them, are printed as they were written. -/
theorem writes {style : NewlineStyle} {printing : Style} {offset : Nat} (horderly : g.Orderly)
    (hpreserve : printing.options.preserve = true) (hstart : start.Unread)
    (huniform : style.Uniform start.source.toList) (honward : start.Onward cursor)
    (hblank : ∀ range ∈ ranges, ∀ c ∈ lineBefore start.source.toList
      (start.tokenAt range.first).start, isBlank c = true)
    (hbreak : ∀ range ∈ ranges, style.text.toList <+:
      start.source.toList.drop (start.tokenAt (range.past - 1)).stop)
    (hadjacent : Adjacent cursor.position ranges (start.tokens.size - 1))
    (hfrom : start.LinesFrom style cursor.position offset) :
    ∃ offset' chars, Doc.Writes (types.flatMap (CompilationUnit.typeDoc printing)) chars ∧
      unifyChars (start.source.toList.drop offset) =
        chars ++ unifyChars (start.source.toList.drop offset') ∧
      cursor'.position = start.tokens.size - 1 ∧
      start.LinesFrom style cursor'.position offset' := by
  induction h generalizing offset with
  | done => exact ⟨offset, [], .nil, rfl, adjacent_nil.1 hadjacent, hfrom⟩
  | @stray cursor _ ranges _ hstray hrest ih =>
    exfalso
    have hnot : cursor.current.kind ≠ .eof := by
      rw [hstray]
      exact nofun
    have hkind := hnot
    rw [Cursor.current, honward.kind_tokenAt] at hkind
    have hlt := hstart.lt_size_of_kind hkind
    have hnext : cursor.next.position = cursor.position + 1 := by
      rw [Cursor.next, if_pos (by rwa [honward.size])]
    have hfirst := (hrest.onward horderly).2.2
    rw [hnext] at hfirst
    cases ranges with
    | nil =>
      have hposition := adjacent_nil.1 hadjacent
      omega
    | cons range rest => exact absurd (hfirst range rfl) (by
        rw [(adjacent_cons.1 hadjacent).1]
        omega)
  | @type cursor middle cursor' decl ranges types hsome hdecl hrest ih =>
    obtain ⟨hmiddle, hlt, comments, blank, _, hlayoutCursor, hlayout⟩ :=
      ends_topLevelType hstart honward horderly _ _ hdecl
    have hpast : middle.position - 1 + 1 = middle.position := by omega
    have hbreak' := hbreak _ List.mem_cons_self
    have hblank' := hblank _ List.mem_cons_self
    have hnext := Cursor.LinesFrom.next hbreak'
    rw [hpast] at hnext
    obtain ⟨offset', chars, hwrites, hchars, hend, hfrom'⟩ := ih hmiddle
      (fun range hrange => hblank range (List.mem_cons_of_mem _ hrange))
      (fun range hrange => hbreak range (List.mem_cons_of_mem _ hrange))
      (adjacent_cons.1 hadjacent).2 hnext
    have hle := (hrest.onward horderly).2.1
    have hindex : cursor.position < start.tokens.size := by omega
    have hline := hfrom.le_start hstart hindex
    have hstop := hstart.start_le_stop_of_le (Nat.le_sub_one_of_lt hlt) (by omega)
    have hdrop := unifyChars_drop huniform hline
      (Nat.le_trans (start.lineStart_le _) hstop) hbreak'
    rw [trivia?_eq hstart hlayoutCursor hfrom hindex hblank',
      capture_eq hstart hmiddle hindex hblank' (Nat.zero_lt_of_lt hlt) hbreak'] at hlayout
    refine ⟨offset', _, (writes_typeDoc hpreserve hlayout).append hwrites, ?_, hend, hfrom'⟩
    rw [hdrop, hchars]
    simp

end ReadsTypes

/-! ### Units -/

section Units

variable {start cursor : Cursor} {style : NewlineStyle} {printing : Style} (hstart : start.Unread)

include hstart

/-- What stands after the last declaration is captured whole. -/
theorem ends_takeClosing {offset : Nat} (honward : start.Onward cursor)
    (hend : start.source.toList = [] ∨ start.source.toList.getLast? = some '\n')
    (hposition : cursor.position = start.tokens.size - 1)
    (hfrom : start.LinesFrom style cursor.position offset) :
    Ends takeClosing cursor fun closing _ => closing.2 =
      some ⟨String.ofList (unifyChars (start.source.toList.drop offset)), closing.1, false⟩ := by
  refine .bind fun (comments, blank) middle htake => ?_
  obtain ⟨hmiddle, hsame⟩ := ends_takeComments _ _ _ htake
  refine .bind fun _ _ hposition' => ?_
  obtain ⟨rfl, rfl⟩ := looks_position.eq_of_ok hposition'
  refine .bind fun lines _ hlines => ?_
  obtain ⟨rfl, rfl⟩ := (looks_closingTrivia _ _).eq_of_ok hlines
  refine .pure ?_
  have hindex : cursor.position < start.tokens.size := by
    rw [hposition]
    exact Nat.sub_one_lt_of_lt hstart.size_pos
  have hlast : (start.tokenAt cursor.position).start = start.source.toList.length :=
    hposition ▸ hstart.start_last
  have hblank : ∀ c ∈ lineBefore start.source.toList (start.tokenAt cursor.position).start,
      isBlank c = true := by
    rw [hlast, lineBefore_length hend]
    exact nofun
  have hgap := hstart.gap?_eq (honward.trans hmiddle) hindex hblank
    (hfrom.gapStart?_eq hstart (honward.trans hmiddle)) (hfrom.le_start hstart hindex) true
  rw [if_pos rfl, hlast, start.slice_eq, List.take_of_length_le (by rw [List.length_drop])] at hgap
  rw [hsame, Cursor.closingTrivia?, hgap]
  rfl

theorem writes_frontDoc {unit : CompilationUnit} (hpreserve : printing.options.preserve = true)
    (huniform : style.Uniform start.source.toList) (honward : start.Onward cursor)
    (hlt : 0 < cursor.position) (hle : cursor.position ≤ start.tokens.size - 1)
    (hheader : (unit.package.isSome || !unit.imports.isEmpty) = true)
    (hleading : unit.leading = cursor.trivia? 0
      (CompilationUnit.headerComments unit.package unit.imports) false)
    (hcapture : unit.header = some (cursor.capture 0 (canonicalText
      (headerDoc unit.package unit.imports))))
    (hblank : ∀ c ∈ lineBefore start.source.toList (start.tokenAt 0).start, isBlank c = true)
    (hbreak : style.text.toList <+:
      start.source.toList.drop (start.tokenAt (cursor.position - 1)).stop) :
    ∃ chars, Doc.Writes (unit.frontDoc printing) chars ∧ unifyChars start.source.toList =
      chars ++ unifyChars (start.source.toList.drop
        ((start.tokenAt (cursor.position - 1)).stop + style.text.toList.length)) := by
  have hindex := hstart.size_pos
  have hstop := hstart.start_le_stop_of_le (Nat.zero_le (cursor.position - 1)) (by omega)
  rw [trivia?_eq hstart honward (@Cursor.LinesFrom.first start style) hindex hblank] at hleading
  rw [capture_eq hstart honward hindex hblank hlt hbreak] at hcapture
  have hdrop := unifyChars_drop huniform (Nat.zero_le _)
    (Nat.le_trans (start.lineStart_le _) hstop) hbreak
  rw [List.drop_zero] at hdrop
  refine ⟨_, ?_, hdrop.trans (by rw [← List.append_cons])⟩
  have hlines := Doc.Writes.txt (String.ofList (unifyChars
    (start.slice 0 (start.lineStart (start.tokenAt 0).start))))
  have hown := Doc.Writes.txt (String.ofList (unifyChars
    (start.slice (start.lineStart (start.tokenAt 0).start) (start.tokenAt (cursor.position - 1)).stop)))
  rw [String.toList_ofList] at hlines hown
  rw [CompilationUnit.frontDoc, if_pos hheader, hleading, hcapture]
  dsimp only
  rw [doc?_captured hpreserve, hpreserve, beq_self_eq_true]
  exact (hlines.append hown).append (.txt "\n")

end Units

/-- The tokens of a text; none if it cannot be cut into tokens. -/
def tokensOf (text : String) : List Token :=
  match tokens text with
  | .ok tokens => tokens
  | .error _ => []

/-- The tokens of the header and of each top-level type of a text; none if it cannot be read. -/
def rangesOf (text : String) : List TokenRange :=
  match parseWith Grammar.declRanges text 0 with
  | .ok (ranges, _) => ranges
  | .error _ => []

/-- Whether the declarations of a text stand on lines of their own: behind white space only, and in front of a line break, with no stray semicolon between two of them. Its line breaks are all of one style, one of them ends the text unless it is empty, and it has no byte order mark. -/
structure OnOwnLines (style : NewlineStyle) (text : String) : Prop where
  unmarked : text.toList.head? ≠ some byteOrderMark
  ended : text.toList = [] ∨ text.toList.getLast? = some '\n'
  uniform : style.Uniform text.toList
  starts : ∀ range ∈ rangesOf text,
    ∀ c ∈ lineBefore text.toList ((tokensOf text).getD range.first .atEnd).start, isBlank c = true
  ends : ∀ range ∈ rangesOf text,
    style.text.toList <+: text.toList.drop ((tokensOf text).getD (range.past - 1) .atEnd).stop
  separated : (rangesOf text).IsChain fun range next => range.past = next.first

/-- Whether its declarations stand on lines of their own can be run on a text. -/
instance decidableOnOwnLines (text : String) : Decidable (OnOwnLines .lf text) :=
  decidable_of_iff
    (text.toList.head? ≠ some byteOrderMark ∧
      (text.toList = [] ∨ text.toList.getLast? = some '\n') ∧
      ¬ ['\r', '\n'] <:+: text.toList ∧
      ((rangesOf text).all fun range => (lineBefore text.toList
        ((tokensOf text).getD range.first .atEnd).start).all isBlank) = true ∧
      (∀ range ∈ rangesOf text, NewlineStyle.lf.text.toList <+:
        text.toList.drop ((tokensOf text).getD (range.past - 1) .atEnd).stop) ∧
      (rangesOf text).IsChain fun range next => range.past = next.first)
    ⟨fun ⟨hmark, hended, huniform, hstarts, hends, hseparated⟩ =>
        ⟨hmark, hended, huniform, fun range hrange =>
          List.all_eq_true.1 (List.all_eq_true.1 hstarts range hrange), hends, hseparated⟩,
      fun h => ⟨h.unmarked, h.ended, h.uniform, List.all_eq_true.2 fun range hrange =>
        List.all_eq_true.2 (h.starts range hrange), h.ends, h.separated⟩⟩

/-- Whether all tokens of a text but the end of file belong to a declaration. -/
structure NoStrayToken (text : String) : Prop where
  adjacent : Adjacent 0 (rangesOf text) ((tokensOf text).length - 1)

instance (text : String) : Decidable (NoStrayToken text) :=
  decidable_of_iff (Adjacent 0 (rangesOf text) ((tokensOf text).length - 1))
    ⟨fun h => ⟨h⟩, NoStrayToken.adjacent⟩

/-- Whether a unit is read from a cursor: its types from the cursor after the header on, which come in the given ranges. -/
structure ReadsUnit (g : Grammar) (start : Cursor) (unit : CompilationUnit)
    (header : Cursor) (ranges : List TokenRange) : Prop where
  onward : start.Onward header
  types : ∃ after last, ReadsTypes g header ranges unit.types after ∧
    takeClosing after = .ok (unit.endComments, unit.closing) last ∧
    (g.declRanges start = .ok (if unit.package.isSome || !unit.imports.isEmpty then
      ⟨start.position, header.position⟩ :: ranges else ranges) after)
  newline : unit.newline = .detect start.source.toList
  missing : (unit.package.isSome || !unit.imports.isEmpty) = false →
    header.position = start.position ∨ 1 < start.tokens.size
  present : (unit.package.isSome || !unit.imports.isEmpty) = true →
    start.position < header.position ∧
      unit.leading = header.trivia? start.position
        (CompilationUnit.headerComments unit.package unit.imports) false ∧
      unit.header = some (header.capture start.position
        (canonicalText (headerDoc unit.package unit.imports)))

theorem looks_capturedHeader (start : Nat) (package : Option PackageDecl)
    (imports : List ImportDecl) {cursor : Cursor} :
    Looks (Grammar.capturedHeader start package imports) cursor
      (if package.isSome || !imports.isEmpty then
        (cursor.trivia? start (CompilationUnit.headerComments package imports) false,
          some (cursor.capture start (canonicalText (headerDoc package imports))))
      else (none, none)) :=
  .ite (.bind (looks_trivia _ _ _) (.bind (looks_captureFrom _ _) (.pure _))) (.pure _)

theorem exists_readsUnit {g : Grammar} {start cursor' : Cursor} (hstart : start.Unread)
    {unit : CompilationUnit} (h : g.compilationUnit start = .ok unit cursor') :
    ∃ header ranges, ReadsUnit g start unit header ranges := by
  obtain ⟨_, _, hget, h⟩ := parser_bind_eq_ok.1 h
  cases hget
  obtain ⟨_, _, hfirst, h⟩ := parser_bind_eq_ok.1 h
  cases hfirst
  obtain ⟨package, middle, hpackage, h⟩ := parser_bind_eq_ok.1 h
  obtain ⟨imports, header, himports, h⟩ := parser_bind_eq_ok.1 h
  obtain ⟨⟨leading, captured⟩, _, hheader, h⟩ := parser_bind_eq_ok.1 h
  obtain ⟨hcaptured, rfl⟩ := (looks_capturedHeader _ _ _).eq_of_ok hheader
  obtain ⟨types, after, htypes, h⟩ := parser_bind_eq_ok.1 h
  obtain ⟨⟨endComments, closing⟩, last, hclosing, h⟩ := parser_bind_eq_ok.1 h
  cases h
  obtain ⟨ranges, hreads, hranges⟩ := exists_readsTypes htypes
  obtain ⟨honward, hle, -⟩ := Grammar.proceeds_packageDecl.ok (Nat.le_refl _) hpackage
  obtain ⟨honward', hle', -⟩ := (proceeds_manyWhile (proceeds_atKeyword .importKw)
    Grammar.proceeds_importDecl).ok (Nat.le_refl _) himports
  have htakes := takes_packageDecl hstart (.refl start) _ _ hpackage
  have htakes' := takes_imports hstart honward _ _ himports
  refine ⟨header, ranges, honward.trans honward', ⟨after, _, hreads, hclosing, ?_⟩, ?_, ?_, ?_⟩
  · exact parser_bind_eq_ok.2 ⟨_, _, rfl, parser_bind_eq_ok.2 ⟨_, _, hpackage,
      parser_bind_eq_ok.2 ⟨_, _, himports, parser_bind_eq_ok.2 ⟨_, _, rfl,
        parser_bind_eq_ok.2 ⟨_, _, hranges, rfl⟩⟩⟩⟩⟩
  · rfl
  · intro hmissing
    rcases htakes with ⟨-, hsize⟩ | ⟨-, rfl⟩
    · exact .inr hsize
    · rcases htakes' with ⟨-, hsize⟩ | ⟨-, rfl⟩
      · exact .inr hsize
      · exact .inl rfl
  · intro hpresent
    rw [if_pos hpresent] at hcaptured
    obtain ⟨hleading, hheader⟩ := Prod.mk.inj hcaptured
    refine ⟨?_, hleading.symm, hheader.symm⟩
    rcases htakes with ⟨hlt, -⟩ | ⟨rfl, rfl⟩
    · exact Nat.lt_of_lt_of_le hlt hle'
    · rcases htakes' with ⟨hlt, -⟩ | ⟨rfl, rfl⟩
      · exact hlt
      · cases hpresent

namespace ReadsUnit

variable {g : Grammar} {start header : Cursor} {unit : CompilationUnit} {ranges : List TokenRange}
  {style : NewlineStyle} {printing : Style} (h : ReadsUnit g start unit header ranges)
  (horderly : g.Orderly) (hstart : start.Unread) (hfirst : start.position = 0)

include h horderly hfirst in
/-- Without a header the types are read from the start. -/
theorem position_of_missing
    (hmissing : (unit.package.isSome || !unit.imports.isEmpty) = false)
    (hadjacent : Adjacent 0 ranges (start.tokens.size - 1)) : header.position = 0 := by
  rcases h.missing hmissing with hposition | hsize
  · rw [hposition, hfirst]
  · obtain ⟨after, last, htypes, -⟩ := h.types
    have hle := (htypes.onward horderly).2.2
    cases ranges with
    | nil =>
      have hend := adjacent_nil.1 hadjacent
      omega
    | cons range rest => exact Nat.le_zero.1 ((adjacent_cons.1 hadjacent).1 ▸ hle range rfl)

include h horderly hstart hfirst in
theorem writes (hpreserve : printing.options.preserve = true)
    (huniform : style.Uniform start.source.toList)
    (hend : start.source.toList = [] ∨ start.source.toList.getLast? = some '\n')
    {all : List TokenRange} (hall : all = if unit.package.isSome || !unit.imports.isEmpty then
      ⟨start.position, header.position⟩ :: ranges else ranges)
    (hblank : ∀ range ∈ all, ∀ c ∈ lineBefore start.source.toList
      (start.tokenAt range.first).start, isBlank c = true)
    (hbreak : ∀ range ∈ all, style.text.toList <+:
      start.source.toList.drop (start.tokenAt (range.past - 1)).stop)
    (hadjacent : Adjacent 0 all (start.tokens.size - 1)) :
    Doc.Writes (unit.doc printing) (unifyChars start.source.toList) := by
  subst hall
  obtain ⟨after, last, htypes, hclosing, -⟩ := h.types
  have hrest : ∀ {offset : Nat}, Adjacent header.position ranges (start.tokens.size - 1) →
      (∀ range ∈ ranges, range ∈ if unit.package.isSome || !unit.imports.isEmpty then
        ⟨start.position, header.position⟩ :: ranges else ranges) →
      start.LinesFrom style header.position offset →
      header.position ≤ start.tokens.size - 1 ∧
        Doc.Writes (unit.types.flatMap (CompilationUnit.typeDoc printing) ++ unit.endDoc printing)
          (unifyChars (start.source.toList.drop offset)) := by
    intro offset hadjacent hmem hfrom
    obtain ⟨offset', chars, hwrites, hchars, hposition, hfrom'⟩ := htypes.writes horderly hpreserve
      hstart huniform h.onward (fun range hrange => hblank range (hmem range hrange))
      (fun range hrange => hbreak range (hmem range hrange)) hadjacent hfrom
    have honward := h.onward.trans (htypes.onward horderly).1
    have hclosing' := ends_takeClosing hstart honward hend hposition hfrom' _ _ hclosing
    refine ⟨hposition ▸ (htypes.onward horderly).2.1, hchars ▸ hwrites.append ?_⟩
    have hlines := Doc.Writes.txt (String.ofList (unifyChars (start.source.toList.drop offset')))
    rw [String.toList_ofList] at hlines
    dsimp only at hclosing'
    rw [CompilationUnit.endDoc, hclosing', doc?_captured hpreserve]
    exact hlines
  rw [CompilationUnit.doc, List.append_assoc]
  cases hpresent : unit.package.isSome || !unit.imports.isEmpty with
  | false =>
    rw [hpresent] at hadjacent hrest
    have hposition := h.position_of_missing horderly hfirst hpresent hadjacent
    have hfront : unit.frontDoc printing = [] := by
      rw [CompilationUnit.frontDoc, if_neg (by rw [hpresent]; exact nofun)]
    have hfrom : start.LinesFrom style header.position 0 := by
      rw [hposition]
      exact .first
    rw [hfront]
    exact (hrest (hposition ▸ hadjacent) (fun _ => id) hfrom).2
  | true =>
    rw [hpresent] at hadjacent hrest hblank hbreak
    rw [if_pos rfl] at hadjacent hrest hblank hbreak
    obtain ⟨hlt, hleading, hheader⟩ := h.present hpresent
    rw [hfirst] at hlt hleading hheader
    have hbreak' := hbreak _ List.mem_cons_self
    have hfrom := Cursor.LinesFrom.next hbreak'
    rw [Nat.sub_add_cancel hlt] at hfrom
    obtain ⟨hle, hwrites⟩ := hrest (adjacent_cons.1 hadjacent).2 (fun _ => List.mem_cons_of_mem _) hfrom
    obtain ⟨chars, hfront, hchars⟩ := writes_frontDoc hstart hpreserve huniform h.onward hlt hle
      hpresent hleading hheader (hfirst ▸ hblank _ List.mem_cons_self) hbreak'
    rw [hchars]
    exact hfront.append hwrites

end ReadsUnit

/-- An untouched text comes back as it was. -/
theorem print_parseUnit {style : NewlineStyle} {text : String} {unit : CompilationUnit}
    {next : NodeId} (hread : parseUnit text = .ok (unit, next)) (hlines : OnOwnLines style text)
    (hstray : NoStrayToken text) : unit.print = text := by
  unfold parseUnit parseWith at hread
  split at hread
  next => cases hread
  next tokens htokens =>
    dsimp only at hread
    split at hread
    next unit cursor hunit =>
      cases hread
      have hstart := Cursor.unread_start htokens hlines.unmarked 0
      have horderly := Grammar.orderly_grammar (tokens.length + 1)
      obtain ⟨header, ranges, hreads⟩ := exists_readsUnit hstart hunit
      obtain ⟨after, last, htypes, hclosing, hranges⟩ := hreads.types
      have hof : tokensOf text = tokens := by rw [tokensOf, htokens]
      have hof' : rangesOf text = if unit.package.isSome || !unit.imports.isEmpty then
          ⟨0, header.position⟩ :: ranges else ranges := by
        unfold rangesOf parseWith
        rw [htokens]
        dsimp only
        rw [hranges]
        rfl
      have htoken (index : Nat) : (Cursor.start text.toList.toArray tokens 0).tokenAt index =
          tokens.getD index .atEnd := Cursor.tokenAt_eq_getD _ index
      have hwrites := @ReadsUnit.writes _ _ _ _ _ style (.ofOptions {}) hreads horderly hstart rfl rfl
        hlines.uniform hlines.ended (rangesOf text) hof'
      have hdoc := hwrites
        (fun range hrange => by rw [htoken, ← hof]; exact hlines.starts range hrange)
        (fun range hrange => by rw [htoken, ← hof]; exact hlines.ends range hrange)
        (hof ▸ hstray.adjacent)
      rw [CompilationUnit.print, hdoc.render_eq, hreads.newline]
      exact expand_unifyNewlines hlines.uniform
    next => cases hread

/-- A text with a header, comments, empty lines and an odd layout inside its types. -/
def spacedText : String :=
  "// one\n\n package a ;\n\n/* two */\n\tclass A\x7b int  x ;;\n \x7d\n// three\n\n"

theorem print_parseUnit_spacedText : ∃ unit next, parseUnit spacedText = .ok (unit, next) ∧
    OnOwnLines .lf spacedText ∧ NoStrayToken spacedText ∧ unit.print = spacedText := by
  obtain ⟨hsome, hlines, hstray⟩ : (parseUnit spacedText).toOption.isSome = true ∧
      OnOwnLines .lf spacedText ∧ NoStrayToken spacedText := by
    decide +kernel
  cases hread : parseUnit spacedText with
  | error failure =>
    rw [hread] at hsome
    cases hsome
  | ok result => exact ⟨_, _, rfl, hlines, hstray, print_parseUnit hread hlines hstray⟩

/-- A text with a stray semicolon after its last type. -/
def strayText : String := "class A \x7b\n\x7d\n;\n"

/-- A stray semicolon that separates no declarations is lost all the same. -/
theorem not_print_parseUnit_strayText : ¬ ∀ (style : NewlineStyle) (text : String)
    (unit : CompilationUnit) (next : NodeId), parseUnit text = .ok (unit, next) →
      OnOwnLines style text → unit.print = text := by
  intro hall
  obtain ⟨hprint, hlines⟩ :
      (parseUnit strayText).toOption.map (·.1.print) = some "class A \x7b\n\x7d\n" ∧
        OnOwnLines .lf strayText := by
    decide +kernel
  cases hread : parseUnit strayText with
  | error failure =>
    rw [hread] at hprint
    cases hprint
  | ok result =>
    rw [hread] at hprint
    have hsame := hall .lf strayText result.1 result.2 hread hlines
    have hkept : strayText = "class A \x7b\n\x7d\n" := hsame ▸ Option.some.inj hprint
    exact absurd hkept (by decide)

end AdviceMigration.Source
