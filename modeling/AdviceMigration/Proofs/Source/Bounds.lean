import AdviceMigration.Proofs.Source.Lines
import Mathlib.Data.List.Chain

/-!
# Cursors that stay inside the text

A cursor is sound if it stands on one of its tokens, its last token is the end of the text, and the places of its tokens and comments are in order. From a sound cursor no token is looked for that is not there, and no piece of the text is asked for that ends before it starts: what a parser only looks at can be had.

The comment that a node has taken from the line it ends on moves the end of that node. It lies between two tokens, which is why the ends of comments are part of the invariant.
-/

namespace AdviceMigration.Source

open AdviceMigration.Text

/-! ### Ends of comments -/

/-- Whether the comments in front of a token end between the token before it and the token. -/
def Token.RemarkedAfter (token before : Token) : Prop :=
  ∀ comment ∈ token.leading, before.stop ≤ comment.stop ∧ comment.stop ≤ token.start

/-- Whether a reader has put the end of every comment between the tokens around it. -/
structure TokenReader.Ordered (reader : TokenReader) : Prop where
  chain : reader.tokens.IsChain Token.RemarkedAfter
  pending : ∀ comment ∈ reader.pending,
    (∀ before ∈ reader.tokens.head?, before.stop ≤ comment.stop) ∧ comment.stop ≤ reader.position
  passed : ∀ before ∈ reader.tokens.head?, before.stop ≤ reader.position

namespace TokenReader

variable {reader : TokenReader}

theorem commentLength_le (kind : CommentKind) (chars : List Char) :
    commentLength kind chars ≤ chars.length := by
  cases kind with
  | line =>
    have hlength := (List.dropWhile_sublist (l := chars.reverse) (· == '\r')).length_le
    simpa [commentLength, commentText] using hlength
  | block => exact Nat.le_refl _
  | doc => exact Nat.le_refl _

theorem Ordered.push (h : reader.Ordered) (kind : TokenKind) (chars : List Char) :
    (reader.push kind chars).Ordered where
  chain := by
    refine List.isChain_cons.2 ⟨fun before hbefore comment hcomment => ?_, h.chain⟩
    have hpending := h.pending comment (List.mem_reverse.1 hcomment)
    exact ⟨hpending.1 before hbefore, hpending.2⟩
  pending := List.forall_mem_nil _
  passed := by
    rintro before ⟨⟩
    exact Nat.le_refl _

/-- The reader goes on, and no comment is added. -/
theorem Ordered.of_le {reader' : TokenReader} (h : reader.Ordered)
    (htokens : reader'.tokens = reader.tokens) (hpending : reader'.pending = reader.pending)
    (hle : reader.position ≤ reader'.position) : reader'.Ordered where
  chain := htokens ▸ h.chain
  pending := by
    rw [htokens, hpending]
    exact fun comment hcomment =>
      ⟨(h.pending comment hcomment).1, Nat.le_trans (h.pending comment hcomment).2 hle⟩
  passed := htokens ▸ fun before hbefore => Nat.le_trans (h.passed before hbefore) hle

theorem Ordered.take (h : reader.Ordered) (lexeme : Lexeme) : (reader.take lexeme).Ordered := by
  cases lexeme with
  | byteOrderMark => exact h.of_le rfl rfl (Nat.le_succ _)
  | blank c => exact h.of_le rfl rfl (Nat.le_succ _)
  | lineFeed => exact h.of_le rfl rfl (Nat.le_succ _)
  | token kind chars => exact h.push kind chars
  | comment kind chars =>
    have hlater : Ordered { reader with position := reader.position + chars.length } :=
      h.of_le rfl rfl (Nat.le_add_right _ _)
    refine ⟨h.chain, List.forall_mem_cons.2 ⟨⟨fun before hbefore => ?_, ?_⟩, hlater.pending⟩,
      hlater.passed⟩
    · exact Nat.le_trans (h.passed before hbefore) (Nat.le_add_right _ _)
    · exact Nat.add_le_add_left (commentLength_le kind chars) _

theorem Ordered.foldl (h : reader.Ordered) (lexemes : List Lexeme) :
    (lexemes.foldl TokenReader.take reader).Ordered := by
  induction lexemes generalizing reader with
  | nil => exact h
  | cons lexeme rest ih => exact ih (h.take lexeme)

theorem ordered_start : ({} : TokenReader).Ordered :=
  ⟨.nil, List.forall_mem_nil _, nofun⟩

end TokenReader

/-- The comments of a text end between the tokens around them. -/
theorem isChain_tokens {text : String} {result : List Token} (h : tokens text = .ok result) :
    result.IsChain fun before token => token.RemarkedAfter before := by
  unfold tokens at h
  split at h
  next lexemes _ =>
    cases h
    exact List.isChain_reverse.2 ((TokenReader.ordered_start.foldl lexemes).push .eof []).chain
  next => cases h

/-! ### Sound cursors -/

/-- Whether a cursor over `size` tokens stands on one of them, and its tokens and comments are in order inside the text. -/
structure Cursor.Sound (size : Nat) (cursor : Cursor) : Prop where
  count : cursor.tokens.size = size
  position : cursor.position < size
  /-- Behind every token but the end of the text comes another one. -/
  next : ∀ index, (cursor.tokenAt index).kind ≠ .eof → index + 1 < size
  span : ∀ index < size, (cursor.tokenAt index).start ≤ (cursor.tokenAt index).stop ∧
    (cursor.tokenAt index).stop ≤ cursor.source.size
  order : ∀ index < size, ∀ before < index,
    (cursor.tokenAt before).stop ≤ (cursor.tokenAt index).start
  leading : ∀ before, before + 1 < size →
    (cursor.tokenAt (before + 1)).RemarkedAfter (cursor.tokenAt before)
  trailing : ∀ index stop, cursor.trailingEnd = some (index, stop) →
    (cursor.tokenAt (index - 1)).stop ≤ stop ∧ stop ≤ (cursor.tokenAt index).start

namespace Cursor.Sound

variable {size : Nat} {cursor : Cursor}

theorem start_le_size (h : cursor.Sound size) {index : Nat} (hindex : index < size) :
    (cursor.tokenAt index).start ≤ cursor.source.size :=
  Nat.le_trans (h.span index hindex).1 (h.span index hindex).2

/-- A cursor that stands elsewhere over the same tokens. -/
theorem move (h : cursor.Sound size) {cursor' : Cursor} (hsource : cursor'.source = cursor.source)
    (htokens : cursor'.tokens = cursor.tokens) (htrailing : cursor'.trailingEnd = cursor.trailingEnd)
    (hposition : cursor'.position < size) : cursor'.Sound size := by
  obtain ⟨source, tokens, position, noLambda, trailingEnd, nextId⟩ := cursor
  obtain ⟨source', tokens', position', noLambda', trailingEnd', nextId'⟩ := cursor'
  cases hsource
  cases htokens
  cases htrailing
  exact ⟨h.count, hposition, h.next, h.span, h.order, h.leading, h.trailing⟩

/-- Comments leave the current token. -/
theorem takeLeading (h : cursor.Sound size) {leading : List LeadingComment}
    {trailingEnd : Option (Nat × Nat)} (hleading : leading ⊆ cursor.current.leading)
    (htrailing : ∀ index stop, trailingEnd = some (index, stop) →
      (cursor.tokenAt (index - 1)).stop ≤ stop ∧ stop ≤ (cursor.tokenAt index).start) :
    Sound size { cursor with
      trailingEnd := trailingEnd
      tokens := cursor.tokens.modify cursor.position fun token =>
        { token with leading := leading } } := by
  -- A token keeps everything but its comments, and the comments it keeps were there before.
  have htoken (index : Nat) : ∃ kept ⊆ (cursor.tokenAt index).leading, ∀ trailingEnd,
      tokenAt { cursor with
        trailingEnd := trailingEnd
        tokens := cursor.tokens.modify cursor.position fun token =>
          { token with leading := leading } } index =
        { cursor.tokenAt index with leading := kept } := by
    have hmodify := cursor.tokenAt_modify cursor.position
      (fun token => { token with leading := leading }) index
    by_cases hhere : cursor.position = index ∧ index < cursor.tokens.size
    · refine ⟨leading, ?_, fun _ => hmodify.trans (if_pos hhere)⟩
      exact fun comment hcomment => hhere.1 ▸ hleading hcomment
    · exact ⟨_, fun _ => id, fun _ => hmodify.trans (if_neg hhere)⟩
  choose kept hkept htoken using htoken
  refine ⟨Array.size_modify.trans h.count, h.position, ?_, ?_, ?_, ?_, ?_⟩
  · intro index
    rw [htoken]
    exact h.next index
  · intro index
    rw [htoken]
    exact h.span index
  · intro index hindex before
    rw [htoken, htoken]
    exact h.order index hindex before
  · intro before hbefore comment
    rw [htoken, htoken]
    exact fun hcomment => h.leading before hbefore comment (hkept _ hcomment)
  · intro index stop
    rw [htoken, htoken]
    exact htrailing index stop

/-- What stands in front of a token ends between the token before it and the token. -/
theorem endBefore_bounds (h : cursor.Sound size) {index : Nat} (hindex : index < size)
    (hpos : 0 < index) : (cursor.tokenAt (index - 1)).stop ≤ cursor.endBefore index ∧
      cursor.endBefore index ≤ (cursor.tokenAt index).start := by
  have hbefore : (cursor.tokenAt (index - 1)).stop ≤ (cursor.tokenAt index).start :=
    h.order index hindex _ (Nat.sub_lt hpos Nat.one_pos)
  rw [Cursor.endBefore]
  cases htrailing : cursor.trailingEnd with
  | none => exact ⟨Nat.le_refl _, hbefore⟩
  | some taken =>
    dsimp only
    split
    next heq =>
      cases beq_iff_eq.1 heq
      exact h.trailing _ _ htrailing
    next => exact ⟨Nat.le_refl _, hbefore⟩

end Cursor.Sound

/-! ### What can be had from a sound cursor -/

/-- Whether a parser answers from a cursor rather than fails. -/
def Succeeds {α : Type} (parser : Parser α) (cursor : Cursor) : Prop :=
  ∃ value cursor', parser cursor = .ok value cursor'

namespace Succeeds

variable {α β : Type} {parser yes no : Parser α} {cursor : Cursor} {value : α}

theorem pure (value : α) : Succeeds (pure value) cursor := ⟨value, cursor, rfl⟩

theorem bind {next : α → Parser β} (hlooks : Looks parser cursor value) (h : Succeeds parser cursor)
    (hnext : Succeeds (next value) cursor) : Succeeds (parser >>= next) cursor := by
  obtain ⟨result, cursor', hok⟩ := h
  obtain ⟨rfl, rfl⟩ := hlooks.eq_of_ok hok
  change ∃ result cursor', EStateM.bind parser next cursor = _
  rw [EStateM.bind, hok]
  exact hnext

theorem get : Succeeds get cursor := ⟨cursor, cursor, rfl⟩

theorem ite {condition : Prop} [Decidable condition] (hyes : condition → Succeeds yes cursor)
    (hno : ¬condition → Succeeds no cursor) : Succeeds (if condition then yes else no) cursor := by
  split
  · exact hyes ‹_›
  · exact hno ‹_›

/-- A condition that is met. -/
theorem guard {condition : Prop} [Decidable condition] {failure : ParseFailure}
    (h : Succeeds parser cursor) (hcondition : condition) :
    Succeeds (if condition then parser else throw failure) cursor :=
  .ite (fun _ => h) fun hnot => absurd hcondition hnot

end Succeeds

/-- A line feed that is found stands where it was looked for. -/
theorem Cursor.findLineFeed_lt {cursor : Cursor} {offset count lineFeed : Nat}
    (h : cursor.findLineFeed offset count = some lineFeed) :
    offset ≤ lineFeed ∧ lineFeed < offset + count := by
  induction count generalizing offset with
  | zero => cases h
  | succ count ih =>
    rw [findLineFeed] at h
    split at h
    · cases h
      omega
    · have hfound := ih h
      omega

section Sound

variable {size : Nat} {cursor : Cursor} (h : cursor.Sound size)

include h

theorem succeeds_here : Succeeds here cursor :=
  ⟨_, _, here_eq (h.count ▸ h.position)⟩

theorem succeeds_kind : Succeeds kind cursor := .bind looks_here (succeeds_here h) (.pure _)

theorem succeeds_atKind (wanted : TokenKind) : Succeeds (atKind wanted) cursor :=
  .bind looks_kind (succeeds_kind h) (.pure _)

theorem succeeds_tokenOf {index : Nat} (hindex : index < size) : Succeeds (tokenOf index) cursor :=
  .bind .get .get (.guard (.pure _) (h.count ▸ hindex))

omit h in
theorem succeeds_checkRange {start stop : Nat} (hle : start ≤ stop) (hstop : stop ≤ cursor.source.size) :
    Succeeds (checkRange start stop) cursor :=
  .bind .get .get (.guard (.pure ()) ⟨hle, hstop⟩)

omit h in
theorem succeeds_cut {start stop : Nat} (hle : start ≤ stop) (hstop : stop ≤ cursor.source.size) :
    Succeeds (cut start stop) cursor :=
  .bind (looks_checkRange start stop) (succeeds_checkRange hle hstop) (.bind .get .get (.pure _))

theorem succeeds_endBefore {index : Nat} (hindex : index < size) : Succeeds (endBefore index) cursor := by
  have htoken : Succeeds (do return (← tokenOf (index - 1)).stop) cursor :=
    .bind (looks_tokenOf _) (succeeds_tokenOf h (Nat.lt_of_le_of_lt (Nat.sub_le _ _) hindex)) (.pure _)
  refine .bind .get .get ?_
  cases cursor.trailingEnd with
  | none => exact htoken
  | some taken => exact .ite (fun _ => .pure _) fun _ => htoken

theorem succeeds_lineOf {index : Nat} (hindex : index < size) : Succeeds (lineOf index) cursor := by
  refine .bind (looks_tokenOf index) (succeeds_tokenOf h hindex) (.bind .get .get ?_)
  exact .bind (looks_cut _ _) (succeeds_cut (cursor.lineStart_le _) (h.start_le_size hindex)) (.pure _)

theorem succeeds_gapStart {index : Nat} (hindex : index < size) : Succeeds (gapStart index) cursor := by
  refine .ite (fun _ => .pure _) fun hzero => ?_
  have hpos : 0 < index := Nat.pos_of_ne_zero fun hnot => hzero (beq_iff_eq.2 hnot)
  have hstop : cursor.endBefore index ≤ cursor.source.size :=
    Nat.le_trans (h.endBefore_bounds hindex hpos).2 (h.start_le_size hindex)
  refine .bind (looks_endBefore index) (succeeds_endBefore h hindex) (.bind .get .get ?_)
  refine .bind (looks_checkRange _ _) (succeeds_checkRange hstop (Nat.le_refl _)) ?_
  cases hfeed : cursor.findLineFeed (cursor.endBefore index)
      (cursor.source.size - cursor.endBefore index) with
  | none => exact .pure _
  | some lineFeed =>
    have hfound := cursor.findLineFeed_lt hfeed
    exact .bind (looks_cut _ _) (succeeds_cut hfound.1 (by omega))
      (.ite (fun _ => .pure _) fun _ => .pure _)

theorem succeeds_gap {index : Nat} (hindex : index < size) (indented : Bool) :
    Succeeds (gap index indented) cursor := by
  have hline := cursor.lineStart_le (cursor.tokenAt index).start
  have hsize := h.start_le_size hindex
  refine .bind (looks_lineOf index) (succeeds_lineOf h hindex) ?_
  refine .ite (fun _ => .bind (looks_gapStart index) (succeeds_gapStart h hindex) ?_) fun _ => .pure _
  cases cursor.gapStart? index with
  | none => exact .pure _
  | some first =>
    refine .ite (fun _ => .pure _) fun hle => ?_
    have hfirst := Nat.le_of_not_lt hle
    cases indented with
    | true =>
      refine .bind (looks_tokenOf index) (succeeds_tokenOf h hindex) (.bind (.pure _) (.pure _) ?_)
      exact .bind (looks_cut _ _) (succeeds_cut (Nat.le_trans hfirst hline) hsize) (.pure _)
    | false =>
      refine .bind (.pure _) (.pure _) ?_
      exact .bind (looks_cut _ _) (succeeds_cut hfirst (Nat.le_trans hline hsize)) (.pure _)

theorem succeeds_trivia {index : Nat} (hindex : index < size) (comments : List Comment)
    (blankLineBefore : Bool) : Succeeds (trivia index comments blankLineBefore) cursor :=
  .bind (looks_gap index false) (succeeds_gap h hindex false) (.pure _)

theorem succeeds_closingTrivia {index : Nat} (hindex : index < size) (comments : List Comment) :
    Succeeds (closingTrivia index comments) cursor :=
  .bind (looks_gap index true) (succeeds_gap h hindex true) (.pure _)

/-- The text of a node can be had once its first token has been passed. -/
theorem succeeds_captureFrom {start : Nat} (hstart : start < cursor.position) (canonical : String) :
    Succeeds (captureFrom start canonical) cursor := by
  have hindex : start < size := Nat.lt_trans hstart h.position
  have hend := h.endBefore_bounds h.position (Nat.zero_lt_of_lt hstart)
  have hstop : cursor.endBefore cursor.position ≤ cursor.source.size :=
    Nat.le_trans hend.2 (h.start_le_size h.position)
  -- The node ends no earlier than its first token starts, be it the only one or not.
  have hfirst : (cursor.tokenAt start).start ≤ cursor.endBefore cursor.position := by
    refine Nat.le_trans ?_ hend.1
    rcases Nat.lt_or_eq_of_le (Nat.le_sub_one_of_lt hstart) with hlt | heq
    · have hlast : cursor.position - 1 < size := Nat.lt_of_le_of_lt (Nat.sub_le _ _) h.position
      exact Nat.le_trans (h.span start hindex).1
        (Nat.le_trans (h.order _ hlast start hlt) (h.span _ hlast).1)
    · rw [← heq]
      exact (h.span start hindex).1
  refine .bind (looks_lineOf start) (succeeds_lineOf h hindex) (.bind looks_position ?_ ?_)
  · exact .bind .get .get (.pure _)
  refine .bind (looks_endBefore _) (succeeds_endBefore h h.position) ?_
  cases cursor.startsLine start with
  | true =>
    refine .bind (.pure _) (.pure _) (.bind (looks_cut _ _) (succeeds_cut ?_ hstop) (.pure _))
    exact Nat.le_trans (cursor.lineStart_le _) hfirst
  | false =>
    refine .bind (looks_tokenOf start) (succeeds_tokenOf h hindex) (.bind (.pure _) (.pure _) ?_)
    exact .bind (looks_cut _ _) (succeeds_cut hfirst hstop) (.pure _)

end Sound

/-! ### The cursor at the start -/

namespace Tiles

variable {first : Bool} {position : Nat} {chars : List Char} {tokens : List Token}

/-- Tokens that tile the end of a text make a sound cursor. -/
theorem sound_start (h : Tiles first position chars tokens) {source : Array Char}
    (hsize : position + chars.length = source.size)
    (hchain : tokens.IsChain fun before token => token.RemarkedAfter before) (nextId : NodeId) :
    (Cursor.start source tokens nextId).Sound tokens.length := by
  have htoken (index : Nat) (hindex : index < tokens.length) :
      (Cursor.start source tokens nextId).tokenAt index = tokens[index] := by
    simp [Cursor.start, Cursor.tokenAt, hindex]
  obtain ⟨front, last, hfront, hlast, -⟩ := h.exists_last
  refine ⟨rfl, ?_, ?_, ?_, ?_, ?_, ?_⟩
  · rw [hfront]
    simp [Cursor.start]
  · intro index hkind
    by_contra hnot
    by_cases hindex : index < tokens.length
    · have hend : index = front.length := by simp [hfront] at hnot hindex; omega
      refine hkind ?_
      rw [htoken index hindex]
      simp [hfront, hend, hlast]
    · refine hkind ?_
      simp [Cursor.start, Cursor.tokenAt, hindex, Token.atEnd]
  · intro index hindex
    have hbounds := h.bounds _ (List.getElem_mem hindex)
    rw [htoken index hindex]
    exact ⟨hbounds.2.1, hsize ▸ hbounds.2.2⟩
  · intro index hindex before hbefore
    rw [htoken index hindex, htoken before (Nat.lt_trans hbefore hindex)]
    exact List.pairwise_iff_getElem.1 h.pairwise _ _ _ hindex hbefore
  · intro before hbefore
    rw [htoken _ hbefore, htoken before (Nat.lt_of_succ_lt hbefore)]
    exact List.isChain_iff_getElem.1 hchain before hbefore
  · intro index stop hnone
    cases hnone

end Tiles

/-- The cursor at the start of a text is sound. -/
theorem sound_start {text : String} {result : List Token} (h : tokens text = .ok result)
    (nextId : NodeId) :
    (Cursor.start text.toList.toArray result nextId).Sound result.length := by
  obtain ⟨hplain, hmarked⟩ := tiles_tokens h
  by_cases hmark : text.toList.head? = some byteOrderMark
  · obtain ⟨body, hbody⟩ := List.head?_eq_some_iff.1 hmark
    refine (hmarked body hbody).sound_start ?_ (isChain_tokens h) nextId
    rw [List.size_toArray, hbody, List.length_cons, Nat.add_comm]
  · refine (hplain hmark).sound_start ?_ (isChain_tokens h) nextId
    rw [List.size_toArray, Nat.zero_add]

end AdviceMigration.Source
