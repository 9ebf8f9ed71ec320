import AdviceMigration.Proofs.Source.RoundTrip
import AdviceMigration.Proofs.Source.StoredComments

/-!
# Written comments

What a text shows of comments, without a look at how they are printed: a comment is in a text if its lines are, one below the other, where a line after the first may have other blanks in front. A text is then taken apart into code and comments, from left to right. The printer asks for empty lines that it does not write everywhere, so code leaves open which of these are in the text.
-/

namespace AdviceMigration.Source

open AdviceMigration.Text

/-- Whether characters are the lines of a comment: the first one as it is, the others with other blanks in front. -/
inductive Reindents : (lines : List (List Char)) → (written : List Char) → Prop
  | nothing : Reindents [] []
  | stacked {first : List Char} {rest below : List (List Char)}
      (hbelow : List.Forall₂ (fun line written => ∃ indent : List Char, (∀ c ∈ indent, c = ' ') ∧
        written = '\n' :: (indent ++ trimStart line)) rest below) :
    Reindents (first :: rest) (first ++ below.flatten)

/-- Whether characters are what code is written as: its texts one after the other, and each empty line that is asked for or not. -/
inductive Doc.Spells : Doc → List Char → Prop
  | nil : Spells [] []
  | text (words : String) {doc : Doc} {chars : List Char} (h : Spells doc chars) :
    Spells (.text words :: doc) (words.toList ++ chars)
  | written {doc : Doc} {chars : List Char} (h : Spells doc chars) :
    Spells (.blankLine :: doc) ('\n' :: chars)
  | omitted {doc : Doc} {chars : List Char} (h : Spells doc chars) : Spells (.blankLine :: doc) chars

/-- A part of a printed text. -/
inductive Part where
  | code (doc : Doc)
  | comment (comment : Comment)

/-- The comment that a part is. -/
def Part.comment? : Part → Option Comment
  | .code _ => none
  | .comment shown => some shown

/-- The same code, or the comment with another text. -/
def Part.retext (texts : CommentTexts) : Part → Part
  | .code doc => .code doc
  | .comment shown => .comment (shown.retext texts)

/-- Whether characters consist of parts from left to right. -/
inductive Shows : List Part → List Char → Prop
  | nil : Shows [] []
  | code {doc : Doc} {parts : List Part} {chars rest : List Char} (hcode : doc.Spells chars)
      (h : Shows parts rest) : Shows (.code doc :: parts) (chars ++ rest)
  | comment {comment : Comment} {parts : List Part} {written rest : List Char}
      (hcomment : Reindents (lines comment.text) written) (h : Shows parts rest) :
    Shows (.comment comment :: parts) (written ++ rest)

theorem Shows.append {parts parts' : List Part} {chars chars' : List Char} (h : Shows parts chars)
    (h' : Shows parts' chars') : Shows (parts ++ parts') (chars ++ chars') := by
  induction h with
  | nil => exact h'
  | code hcode _ ih =>
    rw [List.cons_append, List.append_assoc]
    exact .code hcode ih
  | comment hcomment _ ih =>
    rw [List.cons_append, List.append_assoc]
    exact .comment hcomment ih

/-- The lines of each comment are in the text, one below the other. -/
theorem Shows.exists_infix {parts : List Part} {chars : List Char} (h : Shows parts chars)
    {comment : Comment} (hmem : comment ∈ parts.filterMap Part.comment?) :
    ∃ written, Reindents (lines comment.text) written ∧ written <:+: chars := by
  induction h with
  | nil => cases hmem
  | code _ _ ih =>
    obtain ⟨written, hwritten, hinfix⟩ := ih hmem
    exact ⟨written, hwritten, hinfix.trans (List.suffix_append _ _).isInfix⟩
  | comment hcomment _ ih =>
    rcases List.mem_cons.1 hmem with rfl | hmem
    · exact ⟨_, hcomment, (List.prefix_append _ _).isInfix⟩
    · obtain ⟨written, hwritten, hinfix⟩ := ih hmem
      exact ⟨written, hwritten, hinfix.trans (List.suffix_append _ _).isInfix⟩

theorem splitLines_of_not_mem {line chars : List Char} (h : '\n' ∉ chars) :
    splitLines line chars = if line.isEmpty && chars.isEmpty then [] else [line.reverse ++ chars] := by
  induction chars generalizing line with
  | nil => cases line <;> simp [splitLines]
  | cons c rest ih =>
    obtain ⟨hc, hrest⟩ := List.ne_and_not_mem_of_not_mem_cons h
    rw [splitLines, ih hrest]
    · simp
    · rintro rfl
      exact hc rfl

/-- A comment on one line is written as it is. -/
theorem Reindents.eq_of_not_mem {comment : Comment} {written : List Char}
    (h : Reindents (lines comment.text) written) (hline : '\n' ∉ comment.text.toList) :
    written = comment.text.toList := by
  rw [lines, splitLines_of_not_mem hline] at h
  split at h
  next hempty =>
    cases h
    exact (List.isEmpty_iff.1 (Bool.and_eq_true_iff.1 hempty).2).symm
  next =>
    cases h with
    | stacked hbelow =>
      cases hbelow
      simp

/-! ### Rendering -/

theorem writeTo_blankLine (output : List Char) :
    Piece.writeTo output .blankLine = output ∨ Piece.writeTo output .blankLine = '\n' :: output := by
  unfold Piece.writeTo
  dsimp only
  split
  · exact .inl rfl
  · exact .inl rfl
  · exact .inr rfl

/-- Whatever has been written before, code is written as its texts. -/
theorem exists_spells (doc : Doc) (output : List Char) :
    ∃ chars, doc.foldl Piece.writeTo output = chars.reverse ++ output ∧ Doc.Spells doc chars := by
  induction doc generalizing output with
  | nil => exact ⟨[], rfl, .nil⟩
  | cons piece rest ih =>
    obtain ⟨chars, hchars, hspells⟩ := ih (Piece.writeTo output piece)
    rw [List.foldl_cons, hchars]
    cases piece with
    | text words => exact ⟨words.toList ++ chars, by simp [Piece.writeTo], .text words hspells⟩
    | blankLine =>
      rcases writeTo_blankLine output with hsame | hbreak
      · exact ⟨chars, by rw [hsame], .omitted hspells⟩
      · exact ⟨'\n' :: chars, by simp [hbreak], .written hspells⟩

/-- Whether a document is rendered as parts from left to right, whatever has been written before. -/
def Doc.Prints (doc : Doc) (parts : List Part) : Prop :=
  ∀ output, ∃ chars, doc.foldl Piece.writeTo output = chars.reverse ++ output ∧ Shows parts chars

namespace Doc.Prints

theorem nil : Doc.Prints [] [] := fun _ => ⟨[], rfl, .nil⟩

theorem code (doc : Doc) : doc.Prints [.code doc] := by
  intro output
  obtain ⟨chars, hchars, hspells⟩ := exists_spells doc output
  exact ⟨chars, hchars, List.append_nil chars ▸ .code hspells .nil⟩

theorem append {doc doc' : Doc} {parts parts' : List Part} (h : doc.Prints parts)
    (h' : doc'.Prints parts') : Doc.Prints (doc ++ doc') (parts ++ parts') := by
  intro output
  obtain ⟨chars, hchars, hshows⟩ := h output
  obtain ⟨chars', hchars', hshows'⟩ := h' (chars.reverse ++ output)
  refine ⟨chars ++ chars', ?_, hshows.append hshows'⟩
  rw [List.foldl_append, hchars, hchars', List.reverse_append, List.append_assoc]

theorem exists_render {doc : Doc} {parts : List Part} (h : doc.Prints parts) :
    ∃ chars, render doc = String.ofList chars ∧ Shows parts chars := by
  obtain ⟨chars, hchars, hshows⟩ := h []
  exact ⟨chars, by rw [render, hchars, List.append_nil, List.reverse_reverse], hshows⟩

end Doc.Prints

theorem writes_continuationLine (style : Style) (line : List Char) : ∃ indent : List Char,
    (∀ c ∈ indent, c = ' ') ∧
      (continuationLine style line).Writes ('\n' :: (indent ++ trimStart line)) := by
  have hline := Doc.Writes.txt (String.ofList (trimStart line))
  rw [String.toList_ofList] at hline
  obtain ⟨width, hindent⟩ : ∃ width, style.indent.Writes (List.replicate width ' ') := by
    have hindent := Doc.Writes.txt
      (String.ofList (List.replicate (style.level * style.options.indentWidth) ' '))
    rw [String.toList_ofList] at hindent
    exact ⟨_, hindent⟩
  obtain ⟨offset, hoffset⟩ : ∃ offset, Doc.Writes
      (if (trimStart line).head? == some '*' then txt " " else []) (List.replicate offset ' ') := by
    split
    · exact ⟨1, .txt " "⟩
    · exact ⟨0, .nil⟩
  refine ⟨List.replicate (width + offset) ' ', fun c hc => List.eq_of_mem_replicate hc, ?_⟩
  rw [List.replicate_add]
  exact (((Doc.Writes.txt "\n").append hindent).append hoffset).append hline

/-- The lines of a comment are printed one below the other, those after the first with other blanks in front. -/
theorem Comment.writes_doc (comment : Comment) (style : Style) :
    ∃ written, (comment.doc style).Writes written ∧ Reindents (lines comment.text) written := by
  rw [Comment.doc]
  cases lines comment.text with
  | nil => exact ⟨[], .nil, .nothing⟩
  | cons first rest =>
    have hrest : ∃ below : List (List Char),
        Doc.Writes (rest.flatMap (continuationLine style)) below.flatten ∧
        List.Forall₂ (fun line written => ∃ indent : List Char, (∀ c ∈ indent, c = ' ') ∧
          written = '\n' :: (indent ++ trimStart line)) rest below := by
      induction rest with
      | nil => exact ⟨[], .nil, .nil⟩
      | cons line rest ih =>
        obtain ⟨indent, hindent, hline⟩ := writes_continuationLine style line
        obtain ⟨below, hbelow, hlines⟩ := ih
        exact ⟨_ :: below, hline.append hbelow, .cons ⟨indent, hindent, rfl⟩ hlines⟩
    obtain ⟨below, hbelow, hlines⟩ := hrest
    have hfirst := Doc.Writes.txt (String.ofList first)
    rw [String.toList_ofList] at hfirst
    exact ⟨_, hfirst.append hbelow, .stacked hlines⟩

theorem Comment.prints_doc (comment : Comment) (style : Style) :
    (comment.doc style).Prints [.comment comment] := by
  obtain ⟨written, hwrites, hreindents⟩ := comment.writes_doc style
  exact fun output => ⟨written, hwrites output, List.append_nil written ▸ .comment hreindents .nil⟩

end AdviceMigration.Source
