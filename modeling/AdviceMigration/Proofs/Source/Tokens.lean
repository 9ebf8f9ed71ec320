import AdviceMigration.Source.Token.Stream
import Mathlib.Data.List.Forall2
import Mathlib.Data.List.TakeWhile
import Mathlib.Tactic.SplitIfs

/-!
# Tokens tile their text

Nothing of a text is lost when it is cut into tokens. Between two tokens stand white space and whole comments only; the comments go to the token after them, and its flags count the line feeds since the last of them. The scanners are met in one place, `scan_eq_ok`: a lexeme is what the text goes on with, and it is not empty.
-/

namespace AdviceMigration.Source

open AdviceMigration.Text

/-! ### What stands between tokens -/

/-- The characters of lexemes one after the other. -/
def charsOf (lexemes : List Lexeme) : List Char := lexemes.flatMap Lexeme.chars

@[simp] theorem charsOf_nil : charsOf [] = [] := rfl

@[simp] theorem charsOf_cons (lexeme : Lexeme) (rest : List Lexeme) :
    charsOf (lexeme :: rest) = lexeme.chars ++ charsOf rest := List.flatMap_cons

@[simp] theorem charsOf_append (lexemes lexemes' : List Lexeme) :
    charsOf (lexemes ++ lexemes') = charsOf lexemes ++ charsOf lexemes' := List.flatMap_append

/-- Whether characters in front of `after` are one whole comment: up to the end of their line, or up to the first closing mark. -/
inductive WholeComment : CommentKind → (chars after : List Char) → Prop where
  | line {body after : List Char} (hbody : '\n' ∉ body) (hafter : ∀ c ∈ after.head?, c = '\n') :
    WholeComment .line ('/' :: '/' :: body) after
  | delimited {body after : List Char} (hbody : ¬ ['*', '/'] <:+: body ++ ['*']) :
    WholeComment (delimitedKind ('/' :: '*' :: (body ++ ['*', '/'])))
      ('/' :: '*' :: (body ++ ['*', '/'])) after

/-- Whether a lexeme in front of `after` is white space or a whole comment. -/
inductive Filling : Lexeme → (after : List Char) → Prop where
  | blank {c : Char} {after : List Char} (hblank : isBlank c = true) (hfeed : c ≠ '\n') :
    Filling (.blank c) after
  | lineFeed {after : List Char} : Filling .lineFeed after
  | comment {kind : CommentKind} {chars after : List Char} (h : WholeComment kind chars after) :
    Filling (.comment kind chars) after

/-- Whether all lexemes in front of `after` are white space and whole comments. -/
def Fills : List Lexeme → (after : List Char) → Prop
  | [], _ => True
  | lexeme :: rest, after => Filling lexeme (charsOf rest ++ after) ∧ Fills rest after

/-- A comment between tokens, and the number of line feeds between it and the token or comment before it. -/
structure Remark where
  feeds : Nat
  kind : CommentKind
  chars : List Char

/-- The comments among lexemes, in front of which stand `feeds` line feeds. -/
def remarks (feeds : Nat) : List Lexeme → List Remark
  | [] => []
  | .comment kind chars :: rest => ⟨feeds, kind, chars⟩ :: remarks 0 rest
  | .lineFeed :: rest => remarks (feeds + 1) rest
  | .blank _ :: rest => remarks feeds rest
  | .byteOrderMark :: rest => remarks feeds rest
  | .token _ _ :: rest => remarks feeds rest

/-- The number of line feeds after the last comment among lexemes, in front of which stand `feeds` line feeds. -/
def feedsAfter (feeds : Nat) : List Lexeme → Nat
  | [] => feeds
  | .comment _ _ :: rest => feedsAfter 0 rest
  | .lineFeed :: rest => feedsAfter (feeds + 1) rest
  | .blank _ :: rest => feedsAfter feeds rest
  | .byteOrderMark :: rest => feedsAfter feeds rest
  | .token _ _ :: rest => feedsAfter feeds rest

/-! ### Tiling -/

/-- Whether a text is what is kept of a comment: all but the carriage returns at the end of a line comment, and with bare line feeds in other comments. -/
def KeptText (kind : CommentKind) (chars text : List Char) : Prop :=
  match kind with
  | .line => ∃ count, chars = text ++ List.replicate count '\r' ∧ text.getLast? ≠ some '\r'
  | _ => text = unifyChars chars

/-- Whether a comment in front of a token is the given one; `first` tells that no token stands before it. -/
structure LeadingComment.Keeps (first : Bool) (remark : Remark) (leading : LeadingComment) :
    Prop where
  kind : leading.comment.kind = remark.kind
  text : KeptText remark.kind remark.chars leading.comment.text.toList
  newlineBefore : leading.newlineBefore = true ↔ first = true ∨ 1 ≤ remark.feeds
  blankLineBefore : leading.comment.blankLineBefore = true ↔ 2 ≤ remark.feeds

/-- Whether a token is placed after `gap`, which starts at character `position`, and says what the gap holds; `first` tells that no token stands before it. -/
structure Token.Follows (token : Token) (first : Bool) (position : Nat) (gap : List Lexeme) :
    Prop where
  start : token.start = position + (charsOf gap).length
  stop : token.stop = token.start + token.text.toList.length
  joint : token.joint = true ↔ first = false ∧ token.start = position
  newlineBefore : token.newlineBefore = true ↔ first = true ∨ 1 ≤ feedsAfter 0 gap
  blankLineBefore : token.blankLineBefore = true ↔ 2 ≤ feedsAfter 0 gap
  leading : List.Forall₂ (LeadingComment.Keeps first) (remarks 0 gap) token.leading

/-- Whether tokens tile characters that start at character `position` of a text: a gap, a token, and so on, up to an end of file at the end of the text, after a last gap. -/
inductive Tiles : (first : Bool) → (position : Nat) → List Char → List Token → Prop where
  | eof {first : Bool} {position : Nat} {gap : List Lexeme} {token : Token} (hfills : Fills gap [])
      (hfollows : token.Follows first position gap) (hkind : token.kind = .eof)
      (htext : token.text = "") : Tiles first position (charsOf gap) [token]
  | token {first : Bool} {position : Nat} {gap : List Lexeme} {token : Token} {rest : List Char}
      {tokens : List Token} (hfills : Fills gap (token.text.toList ++ rest))
      (hfollows : token.Follows first position gap) (hkind : token.kind ≠ .eof)
      (htext : token.text ≠ "") (hstart : ∀ c ∈ token.text.toList.head?, isBlank c = false)
      (hrest : Tiles false token.stop rest tokens) :
      Tiles first position (charsOf gap ++ token.text.toList ++ rest) (token :: tokens)

/-! ### One lexeme -/

/-- Whether a lexeme in front of `after` is a filling, or a token whose text does not start with white space. -/
def Stretch (lexeme : Lexeme) (after : List Char) : Prop :=
  Filling lexeme after ∨
    ∃ kind c chars, lexeme = .token kind (c :: chars) ∧ kind ≠ .eof ∧ isBlank c = false

theorem Filling.chars_ne_nil {lexeme : Lexeme} {after : List Char} (h : Filling lexeme after) :
    lexeme.chars ≠ [] := by
  cases h with
  | blank => exact List.cons_ne_nil _ _
  | lineFeed => exact List.cons_ne_nil _ _
  | comment h => cases h <;> exact List.cons_ne_nil _ _

theorem Stretch.chars_ne_nil {lexeme : Lexeme} {after : List Char} (h : Stretch lexeme after) :
    lexeme.chars ≠ [] := by
  rcases h with hfilling | ⟨kind, c, chars, rfl, -, -⟩
  · exact hfilling.chars_ne_nil
  · exact List.cons_ne_nil c chars

theorem length_le_numberEnd (hex floating : Bool) (length : Nat) (rest : List Char) :
    length ≤ (numberEnd hex floating length rest).2 := by
  rw [numberEnd]
  split
  · split_ifs <;> simp
  · split_ifs <;> simp

theorem decimalNumber_pos {c : Char} {rest : List Char}
    (h : (c.isDigit || (c == '.' && rest.head?.any Char.isDigit)) = true) :
    0 < (decimalNumber (c :: rest)).2 := by
  refine Nat.lt_of_lt_of_le ?_ (length_le_numberEnd _ _ _ _)
  rcases Bool.or_eq_true _ _ ▸ h with hdigit | hpoint
  · have hrun : 0 < digitRun (c :: rest) := by simp [digitRun, hdigit]
    omega
  · obtain ⟨hc, hrest⟩ := Bool.and_eq_true _ _ ▸ hpoint
    cases beq_iff_eq.1 hc
    have hrun : digitRun ('.' :: rest) = 0 := by simp [digitRun]
    have hfraction : 0 < fractionLength ('.' :: rest) := by
      cases rest with
      | nil => simp at hrest
      | cons d rest =>
        have hd : d.isDigit = true := by simpa using hrest
        simp only [fractionLength, List.head?_cons, hd, Bool.true_or, if_true]
        omega
    rw [hrun, List.drop_zero]
    omega

theorem number_pos {c : Char} {rest : List Char}
    (h : (c.isDigit || (c == '.' && rest.head?.any Char.isDigit)) = true) :
    0 < (number (c :: rest)).2 := by
  unfold number
  split
  next mark body heq =>
    split_ifs
    · exact Nat.lt_of_lt_of_le (by omega) (length_le_numberEnd _ _ _ _)
    · exact Nat.lt_of_lt_of_le (by omega) (length_le_numberEnd _ _ _ _)
    · exact heq ▸ decimalNumber_pos h
  next => exact decimalNumber_pos h

theorem Punct.text_ne_nil (punct : Punct) : punct.text.toList ≠ [] := by
  cases punct <;> decide

theorem Punct.ofStart?_isPrefix {cs : List Char} {punct : Punct} (h : ofStart? cs = some punct) :
    punct.text.toList <+: cs := by
  have hfound := List.find?_some h
  exact List.isPrefixOf_iff_prefix.1 hfound

theorem TokenKind.ofWord_ne_eof (word : String) : TokenKind.ofWord word ≠ .eof := by
  unfold ofWord
  split_ifs
  · exact nofun
  · exact nofun
  · split <;> exact nofun

/-- A literal of the first `length` characters of a text. -/
theorem piece_literal (kind : LiteralKind) {c : Char} (hblank : isBlank c = false)
    (rest : List Char) {length : Nat} (hlength : 0 < length) :
    let lexeme := Lexeme.token (.literal kind) ((c :: rest).take length)
    ∃ after, c :: rest = lexeme.chars ++ after ∧ Stretch lexeme after := by
  obtain ⟨shorter, rfl⟩ := Nat.exists_eq_add_of_lt hlength
  rw [Nat.zero_add]
  exact ⟨rest.drop shorter, by simp [Lexeme.chars],
    .inr ⟨_, c, rest.take shorter, rfl, TokenKind.noConfusion, hblank⟩⟩

theorem scanToken_eq_ok {c : Char} {rest : List Char} {lexeme : Lexeme} (hblank : isBlank c = false)
    (h : scanToken c rest = .ok lexeme) :
    ∃ after, c :: rest = lexeme.chars ++ after ∧ Stretch lexeme after := by
  unfold scanToken at h
  split_ifs at h with hword hnumber hquote hapostrophe
  · cases h
    refine ⟨rest.dropWhile isIdentContinue, ?_,
      .inr ⟨_, c, _, rfl, TokenKind.ofWord_ne_eof _, hblank⟩⟩
    exact congrArg (c :: ·) (List.takeWhile_append_dropWhile.symm)
  · cases h
    exact piece_literal _ hblank rest (number_pos hnumber)
  · split at h
    · split at h
      · cases h
        exact piece_literal _ hblank _ (Nat.add_pos_left (by decide) _)
      · cases h
    · split at h
      · cases h
        exact piece_literal _ hblank _ (Nat.add_pos_left (by decide) _)
      · cases h
  · split at h
    · cases h
      exact piece_literal _ hblank _ (Nat.add_pos_left (by decide) _)
    · cases h
  · split at h
    next punct hpunct =>
      cases h
      obtain ⟨after, hafter⟩ := Punct.ofStart?_isPrefix hpunct
      obtain ⟨d, chars, hchars⟩ := List.exists_cons_of_ne_nil punct.text_ne_nil
      obtain ⟨rfl, -⟩ := List.cons.inj ((hchars ▸ hafter : d :: chars ++ after = c :: rest))
      exact ⟨after, hafter.symm, .inr ⟨.punct punct, d, chars, by rw [hchars], TokenKind.noConfusion, hblank⟩⟩
    next => cases h

theorem blockCommentLength_eq_some {cs : List Char} {length : Nat}
    (h : blockCommentLength cs = some length) :
    ∃ body after, cs = body ++ ['*', '/'] ++ after ∧ length = body.length + 2 ∧
      ¬ ['*', '/'] <:+: body ++ ['*'] := by
  induction cs using blockCommentLength.induct generalizing length with
  | case1 => cases h
  | case2 after =>
    rw [blockCommentLength] at h
    cases h
    exact ⟨[], after, rfl, rfl, by decide⟩
  | case3 c rest hopen ih =>
    rw [blockCommentLength] at h
    · obtain ⟨shorter, hshorter, rfl⟩ := Option.map_eq_some_iff.1 h
      obtain ⟨body, after, rfl, rfl, hbody⟩ := ih hshorter
      refine ⟨c :: body, after, rfl, rfl, fun hinfix => ?_⟩
      rcases List.infix_cons_iff.1 hinfix with hstart | hinfix
      · -- The mark would have closed the comment at its first character.
        obtain ⟨more, hmore⟩ := hstart
        rcases body with _ | ⟨d, body⟩
        · cases hmore
        · simp only [List.cons_append, List.nil_append, List.cons.injEq] at hmore
          obtain ⟨rfl, rfl, -⟩ := hmore
          exact hopen (body ++ ['*', '/'] ++ after) rfl rfl
      · exact hbody hinfix
    · exact hopen

/-- A lexeme is what the text goes on with. -/
theorem scan_eq_ok {c : Char} {rest : List Char} {lexeme : Lexeme} (h : scan c rest = .ok lexeme) :
    ∃ after, c :: rest = lexeme.chars ++ after ∧ Stretch lexeme after := by
  unfold scan at h
  split at h
  next body =>
    cases h
    refine ⟨body.dropWhile (· != '\n'), ?_, .inl (.comment (.line ?_ ?_))⟩
    · simp [Lexeme.chars]
    · intro hmem
      simpa using List.mem_takeWhile_imp hmem
    · intro c hc
      have hnot := List.head?_dropWhile_not (· != '\n') body
      rw [Option.mem_def.1 hc] at hnot
      simpa using hnot
  next body =>
    split at h
    next length hlength =>
      cases h
      obtain ⟨inner, after, rfl, rfl, hinner⟩ := blockCommentLength_eq_some hlength
      have htake : (inner ++ ['*', '/'] ++ after).take (inner.length + 2) = inner ++ ['*', '/'] :=
        List.take_left' (by simp)
      rw [htake]
      exact ⟨after, rfl, .inl (.comment (.delimited hinner))⟩
    next => cases h
  next =>
    cases h
    exact ⟨rest, rfl, .inl .lineFeed⟩
  next hfeed _ _ =>
    split_ifs at h with hblank
    · cases h
      exact ⟨rest, rfl, .inl (.blank hblank hfeed)⟩
    · exact scanToken_eq_ok (Bool.eq_false_iff.2 hblank) h

/-! ### Lexemes of a text -/

/-- Whether each lexeme is a filling or a token in front of those after it. -/
def Stretches : List Lexeme → Prop
  | [] => True
  | lexeme :: rest => Stretch lexeme (charsOf rest) ∧ Stretches rest

theorem lexemesFrom_eq_ok {position skip : Nat} {read lexemes : List Lexeme} {cs : List Char}
    (h : lexemesFrom position skip read cs = .ok lexemes) :
    ∃ new, lexemes = read.reverse ++ new ∧ cs.drop skip = charsOf new ∧ Stretches new := by
  induction cs generalizing position skip read with
  | nil =>
    rw [lexemesFrom] at h
    cases h
    exact ⟨[], (List.append_nil _).symm, List.drop_nil, trivial⟩
  | cons c rest ih =>
    unfold lexemesFrom at h
    split at h
    · exact ih h
    · split at h
      next lexeme hscan =>
        obtain ⟨after, hafter, hstretch⟩ := scan_eq_ok hscan
        obtain ⟨new, rfl, hnew, hstretches⟩ := ih h
        obtain ⟨d, chars, hchars⟩ := List.exists_cons_of_ne_nil hstretch.chars_ne_nil
        rw [hchars, List.cons_append, List.cons.injEq] at hafter
        rw [hchars, List.length_cons, Nat.add_sub_cancel, hafter.2, List.drop_left] at hnew
        refine ⟨lexeme :: new, by simp, ?_, hnew ▸ hstretch, hstretches⟩
        rw [List.drop_zero, charsOf_cons, hchars, ← hnew, hafter.1, hafter.2]
        rfl
      next => cases h

/-! ### Reading tokens -/

theorem remarks_append (feeds : Nat) (lexemes lexemes' : List Lexeme) :
    remarks feeds (lexemes ++ lexemes') =
      remarks feeds lexemes ++ remarks (feedsAfter feeds lexemes) lexemes' := by
  induction lexemes generalizing feeds with
  | nil => rfl
  | cons lexeme rest ih => cases lexeme <;> simp [remarks, feedsAfter, ih]

theorem feedsAfter_append (feeds : Nat) (lexemes lexemes' : List Lexeme) :
    feedsAfter feeds (lexemes ++ lexemes') = feedsAfter (feedsAfter feeds lexemes) lexemes' := by
  induction lexemes generalizing feeds with
  | nil => rfl
  | cons lexeme rest ih => cases lexeme <;> simp [feedsAfter, ih]

theorem fills_append {lexemes lexemes' : List Lexeme} {after : List Char} :
    Fills (lexemes ++ lexemes') after ↔
      Fills lexemes (charsOf lexemes' ++ after) ∧ Fills lexemes' after := by
  induction lexemes with
  | nil => simp [Fills]
  | cons lexeme rest ih => simp [Fills, ih, and_assoc]

theorem Fills.eq_nil {gap : List Lexeme} {after : List Char} (h : Fills gap after)
    (hchars : charsOf gap = []) : gap = [] := by
  cases gap with
  | nil => rfl
  | cons lexeme rest => exact absurd (List.append_eq_nil_iff.1 hchars).1 h.1.chars_ne_nil

theorem keptText_commentText (kind : CommentKind) (chars : List Char) :
    KeptText kind chars (TokenReader.commentText kind chars) := by
  cases kind with
  | line =>
    refine ⟨(chars.reverse.takeWhile (· == '\r')).length, ?_, ?_⟩
    · have hreturns : chars.reverse.takeWhile (· == '\r') =
          List.replicate (chars.reverse.takeWhile (· == '\r')).length '\r' :=
        List.eq_replicate_iff.2 ⟨rfl, fun c hc => by simpa using List.mem_takeWhile_imp hc⟩
      rw [TokenReader.commentText, ← List.reverse_replicate, ← hreturns, ← List.reverse_append,
        List.takeWhile_append_dropWhile, List.reverse_reverse]
    · intro hlast
      rw [TokenReader.commentText, List.getLast?_reverse] at hlast
      have hnot := List.head?_dropWhile_not (· == '\r') chars.reverse
      rw [hlast] at hnot
      exact absurd hnot (by decide)
  | block => rfl
  | doc => rfl

/-- Whether a reader stands after `gap`, which starts at character `position`. -/
structure TokenReader.After (reader : TokenReader) (first : Bool) (position : Nat)
    (gap : List Lexeme) : Prop where
  position : reader.position = position + (charsOf gap).length
  newlines : reader.newlines = feedsAfter 0 gap
  sawTrivia : reader.sawTrivia = !gap.isEmpty
  pending : List.Forall₂ (LeadingComment.Keeps first) (remarks 0 gap) reader.pending.reverse
  first : reader.tokens.isEmpty = first

namespace TokenReader

variable {reader : TokenReader} {first : Bool} {position : Nat} {gap : List Lexeme}

/-- A filling widens the gap. -/
theorem After.take (h : reader.After first position gap) {lexeme : Lexeme} {after : List Char}
    (hfilling : Filling lexeme after) :
    (reader.take lexeme).After first position (gap ++ [lexeme]) := by
  have hposition : reader.position + lexeme.chars.length =
      position + (charsOf (gap ++ [lexeme])).length := by
    simp [h.position, Nat.add_assoc]
  cases hfilling with
  | blank =>
    refine ⟨hposition, ?_, by simp [TokenReader.take], ?_, h.first⟩
    · rw [feedsAfter_append, ← h.newlines]
      rfl
    · rw [remarks_append, remarks, remarks, List.append_nil]
      exact h.pending
  | lineFeed =>
    refine ⟨hposition, ?_, by simp [TokenReader.take], ?_, h.first⟩
    · rw [feedsAfter_append, ← h.newlines]
      rfl
    · rw [remarks_append, remarks, remarks, List.append_nil]
      exact h.pending
  | @comment kind chars =>
    refine ⟨hposition, ?_, by simp [TokenReader.take], ?_, h.first⟩
    · rw [feedsAfter_append]
      rfl
    · rw [remarks_append, ← h.newlines]
      simp only [TokenReader.take, remarks, List.reverse_cons]
      refine List.rel_append h.pending (.cons ⟨rfl, ?_, ?_, ?_⟩ .nil)
      · rw [String.toList_ofList]
        exact keptText_commentText kind chars
      · simp [h.first, Nat.one_le_iff_ne_zero, or_comm]
      · simp [Nat.lt_iff_add_one_le]

/-- The token that is pushed stands after the gap. -/
theorem After.push (h : reader.After first position gap) {after : List Char}
    (hfills : Fills gap after) (kind : TokenKind) (chars : List Char) :
    ∃ token, token.kind = kind ∧ token.text.toList = chars ∧ token.Follows first position gap ∧
      (reader.push kind chars).tokens = token :: reader.tokens ∧
      (reader.push kind chars).After false token.stop [] := by
  refine ⟨_, rfl, String.toList_ofList, ⟨h.position, ?_, ?_, ?_, ?_, h.pending⟩, rfl,
    ⟨rfl, rfl, rfl, .nil, rfl⟩⟩
  · simp
  · have hempty : gap.isEmpty = true ↔ (charsOf gap).length = 0 := by
      rw [List.isEmpty_iff, List.length_eq_zero_iff]
      exact ⟨fun hnil => hnil ▸ rfl, hfills.eq_nil⟩
    simp only [h.first, h.sawTrivia, Bool.not_not, Bool.and_eq_true, hempty, h.position,
      Bool.not_eq_true', and_comm, Nat.add_eq_left]
  · simp [h.first, h.newlines, Nat.one_le_iff_ne_zero, or_comm]
  · simp [h.newlines, Nat.lt_iff_add_one_le]

end TokenReader

/-- From a gap on, the tokens that are read tile what comes. -/
theorem tiles_ofLexemes {lexemes : List Lexeme} (hstretches : Stretches lexemes) {reader : TokenReader}
    {first : Bool} {position : Nat} {gap : List Lexeme} (hafter : reader.After first position gap)
    (hfills : Fills gap (charsOf lexemes)) :
    ∃ new, ((lexemes.foldl TokenReader.take reader).push .eof []).tokens.reverse =
        reader.tokens.reverse ++ new ∧ Tiles first position (charsOf gap ++ charsOf lexemes) new := by
  induction lexemes generalizing reader first position gap with
  | nil =>
    obtain ⟨token, hkind, htext, hfollows, htokens, -⟩ := hafter.push hfills .eof []
    refine ⟨[token], by simp [htokens], ?_⟩
    rw [charsOf_nil, List.append_nil]
    exact .eof hfills hfollows hkind (String.toList_inj.1 htext)
  | cons lexeme rest ih =>
    obtain ⟨hfilling | ⟨kind, c, chars, rfl, hkind, hblank⟩, hrest⟩ := hstretches
    · have hwider : Fills (gap ++ [lexeme]) (charsOf rest) :=
        fills_append.2 ⟨by simpa using hfills, by simpa [Fills] using hfilling⟩
      obtain ⟨new, hnew, htiles⟩ := ih hrest (hafter.take hfilling) hwider
      have htokens : (reader.take lexeme).tokens = reader.tokens := by
        cases hfilling <;> rfl
      refine ⟨new, by rw [List.foldl_cons, hnew, htokens], ?_⟩
      simpa [List.append_assoc] using htiles
    · obtain ⟨token, hkind', htext, hfollows, htokens, hpushed⟩ := hafter.push hfills kind (c :: chars)
      obtain ⟨new, hnew, htiles⟩ := ih hrest hpushed trivial
      refine ⟨token :: new, ?_, ?_⟩
      · rw [List.foldl_cons]
        refine hnew.trans ?_
        rw [htokens, List.reverse_cons, List.append_assoc]
        rfl
      · rw [charsOf_cons, ← List.append_assoc]
        change Tiles first position (charsOf gap ++ (c :: chars) ++ charsOf rest) _
        rw [← htext]
        refine .token (by rwa [htext]) hfollows (hkind' ▸ hkind) ?_ ?_ htiles
        · exact fun hempty => List.cons_ne_nil c chars (htext ▸ congrArg String.toList hempty)
        · rw [htext]
          exact fun d hd => Option.some.inj hd ▸ hblank

/-- Before the first token, the tokens that are read tile what comes. -/
theorem tiles_of_stretches {lexemes : List Lexeme} (hstretches : Stretches lexemes) {reader : TokenReader}
    {first : Bool} {position : Nat} (hafter : reader.After first position [])
    (htokens : reader.tokens = []) :
    Tiles first position (charsOf lexemes)
      ((lexemes.foldl TokenReader.take reader).push .eof []).tokens.reverse := by
  obtain ⟨new, hnew, htiles⟩ := tiles_ofLexemes hstretches hafter trivial
  rw [hnew, htokens]
  exact htiles

/-- Lexing loses nothing: the tokens of a text tile it, behind a byte order mark at its start if it has one. -/
theorem tiles_tokens {text : String} {result : List Token} (h : tokens text = .ok result) :
    (text.toList.head? ≠ some byteOrderMark → Tiles true 0 text.toList result) ∧
      ∀ body, text.toList = byteOrderMark :: body → Tiles true 1 body result := by
  unfold tokens at h
  split at h
  next stretches hstretches =>
    cases h
    have hstart : (TokenReader.mk 0 0 false [] []).After true 0 [] := ⟨rfl, rfl, rfl, .nil, rfl⟩
    generalize text.toList = chars at hstretches
    unfold lexemes at hstretches
    split at hstretches
    next c rest =>
      split_ifs at hstretches with hmark
      · obtain ⟨new, rfl, hnew, hwell⟩ := lexemesFrom_eq_ok hstretches
        have hmarked : (TokenReader.mk 1 0 false [] []).After true 1 [] := ⟨rfl, rfl, rfl, .nil, rfl⟩
        refine ⟨fun hnot => absurd (by rw [beq_iff_eq.1 hmark]; rfl) hnot, fun body hbody => ?_⟩
        cases hbody
        rw [List.drop_zero] at hnew
        exact hnew ▸ tiles_of_stretches hwell hmarked rfl
      · obtain ⟨new, rfl, hnew, hwell⟩ := lexemesFrom_eq_ok hstretches
        rw [List.drop_zero] at hnew
        refine ⟨fun _ => hnew ▸ tiles_of_stretches hwell hstart rfl, fun body hbody => ?_⟩
        cases hbody
        exact absurd (beq_self_eq_true _) hmark
    next =>
      cases hstretches
      have hnone : Stretches [] := trivial
      exact ⟨fun _ => tiles_of_stretches hnone hstart rfl, nofun⟩
  next => cases h

/-- A text with a byte order mark, a line comment, an empty line, a block comment and tokens that touch. -/
def remarkedText : String :=
  "\uFEFF// one\r\n\r\nclass A\x7b /* two\r\n */ int x = 0x1F; \x7d// three\n"

/-- The tokens of a text with comments tile it. -/
theorem tiles_tokens_remarkedText : ∃ body result, tokens remarkedText = .ok result ∧
    remarkedText.toList = byteOrderMark :: body ∧ result.length = 10 ∧ Tiles true 1 body result := by
  have hread : ((tokens remarkedText).toOption.map List.length) = some 10 := by
    decide +kernel
  cases hresult : tokens remarkedText with
  | error error =>
    rw [hresult] at hread
    cases hread
  | ok result =>
    rw [hresult] at hread
    exact ⟨_, result, rfl, rfl, Option.some_inj.1 hread, (tiles_tokens hresult).2 _ rfl⟩

end AdviceMigration.Source
