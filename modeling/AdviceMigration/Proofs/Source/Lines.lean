import AdviceMigration.Proofs.Source.Cursors
import AdviceMigration.Proofs.Source.Tokens
import AdviceMigration.Source.Parse.Unit
import Mathlib.Data.List.GetD
import Mathlib.Data.List.TakeDrop

/-!
# Tokens on their lines

Where the lines of a text begin, and what stands between a token that is the last thing on its line and the next token that starts one. The lines between two such tokens are all that a node captures of what stands in front of it.
-/

namespace AdviceMigration.Source

open AdviceMigration.Text

/-! ### Order of tokens -/

namespace Tiles

variable {first : Bool} {position : Nat} {chars text : List Char} {tokens : List Token}

theorem bounds (h : Tiles first position chars tokens) : ∀ token ∈ tokens,
    position ≤ token.start ∧ token.start ≤ token.stop ∧ token.stop ≤ position + chars.length := by
  induction h with
  | @eof first position gap token hfills hfollows hkind htext =>
    have hstart := hfollows.start
    have hstop := hfollows.stop
    rw [htext] at hstop
    rintro other hother
    cases List.mem_singleton.1 hother
    simp only [String.toList_empty, List.length_nil] at hstop
    omega
  | @token first position gap token rest tokens hfills hfollows hkind htext hstart hrest ih =>
    have hstart := hfollows.start
    have hstop := hfollows.stop
    simp only [List.length_append]
    refine List.forall_mem_cons.2 ⟨by omega, fun other hother => ?_⟩
    have hother := ih other hother
    omega

theorem pairwise (h : Tiles first position chars tokens) :
    tokens.Pairwise fun token other => token.stop ≤ other.start := by
  induction h with
  | eof => exact List.pairwise_singleton _ _
  | token hfills hfollows hkind htext hstart hrest ih =>
    exact List.pairwise_cons.2 ⟨fun other hother => (hrest.bounds other hother).1, ih⟩

/-- The end of file is the last token, and it stands at the end of the text. -/
theorem exists_last (h : Tiles first position chars tokens) : ∃ (front : List Token) (last : Token),
    tokens = front ++ [last] ∧ last.kind = .eof ∧ last.start = position + chars.length ∧
      ∀ token ∈ front, token.kind ≠ .eof := by
  induction h with
  | @eof first position gap token hfills hfollows hkind htext =>
    exact ⟨[], token, rfl, hkind, hfollows.start, List.forall_mem_nil _⟩
  | @token first position gap token rest tokens hfills hfollows hkind htext hstart hrest ih =>
    obtain ⟨front, last, rfl, hlast, hend, hfront⟩ := ih
    refine ⟨token :: front, last, rfl, hlast, ?_, List.forall_mem_cons.2 ⟨hkind, hfront⟩⟩
    have hstart := hfollows.start
    have hstop := hfollows.stop
    simp only [List.length_append]
    omega

end Tiles

/-! ### Comments after a line break -/

theorem le_feeds_of_mem_head? {feeds : Nat} {lexemes : List Lexeme} :
    ∀ remark ∈ (remarks feeds lexemes).head?, feeds ≤ remark.feeds := by
  induction lexemes generalizing feeds with
  | nil => exact nofun
  | cons lexeme rest ih =>
    cases lexeme with
    | comment kind chars =>
      rintro remark ⟨⟩
      exact Nat.le_refl _
    | lineFeed => exact fun remark hremark => Nat.le_of_succ_le (ih remark hremark)
    | blank c => exact ih
    | byteOrderMark => exact ih
    | token kind chars => exact ih

theorem one_le_feeds_of_feed {gap : List Lexeme} {after : List Char} (hfills : Fills gap after)
    (hfeed : (charsOf gap ++ after).head? = some '\n') :
    ∀ remark ∈ (remarks 0 gap).head?, 1 ≤ remark.feeds := by
  cases gap with
  | nil => exact nofun
  | cons lexeme rest =>
    cases hfills.1 with
    | blank hblank hnot => exact absurd (Option.some.inj hfeed) hnot
    | lineFeed => exact @le_feeds_of_mem_head? 1 rest
    | comment hwhole => cases hwhole <;> cases hfeed

/-- In a gap that starts with a line break, no comment shares the line of what stands in front. -/
theorem one_le_feeds_of_lineBreak {style : NewlineStyle} {gap : List Lexeme} {after : List Char}
    (hfills : Fills gap after) (hbreak : style.text.toList <+: charsOf gap ++ after) :
    ∀ remark ∈ (remarks 0 gap).head?, 1 ≤ remark.feeds := by
  obtain ⟨later, hlater⟩ := hbreak
  cases style with
  | lf => exact one_le_feeds_of_feed hfills (hlater ▸ rfl)
  | crlf =>
    cases gap with
    | nil => exact nofun
    | cons lexeme rest =>
      cases hfills.1 with
      | blank hblank hnot =>
        have hrest : '\n' :: later = charsOf rest ++ after := (List.cons.inj hlater).2
        exact @one_le_feeds_of_feed rest after hfills.2 (by rw [← hrest]; rfl)
      | lineFeed => exact @le_feeds_of_mem_head? 1 rest
      | comment hwhole => cases hwhole <;> cases hlater

theorem length_le_of_prefix {front gap after : List Char} (hblank : ∀ c ∈ front, isBlank c = true)
    (h : front <+: gap ++ after) (hafter : ∀ c ∈ after.head?, isBlank c = false) :
    front.length ≤ gap.length := by
  induction gap generalizing front with
  | nil =>
    cases front with
    | nil => exact Nat.le_refl 0
    | cons c front =>
      obtain ⟨later, hlater⟩ := h
      have hc := hafter c (by rw [← List.nil_append after, ← hlater]; rfl)
      rw [hblank c List.mem_cons_self] at hc
      cases hc
  | cons d gap ih =>
    cases front with
    | nil => exact Nat.zero_le _
    | cons c front =>
      obtain ⟨rfl, hfront⟩ := List.cons_prefix_cons.1 h
      exact Nat.succ_le_succ (ih (fun e he => hblank e (List.mem_cons_of_mem c he)) hfront)

theorem isBlank_of_mem_lineBreak (style : NewlineStyle) :
    ∀ c ∈ style.text.toList, isBlank c = true := by
  intro c hc
  cases style with
  | lf =>
    obtain rfl : c = '\n' := by simpa [NewlineStyle.text] using hc
    rfl
  | crlf =>
    obtain rfl | rfl : c = '\r' ∨ c = '\n' := by simpa [NewlineStyle.text] using hc
    · rfl
    · rfl

namespace Tiles

variable {first : Bool} {position : Nat} {chars text : List Char} {tokens : List Token}

/-- After a line break, the next token starts behind it, and its first comment does not share the line of what the line break follows. -/
theorem apart_head (h : Tiles false position chars tokens) {style : NewlineStyle}
    (hbreak : style.text.toList <+: chars) : ∀ token ∈ tokens.head?,
      position + style.text.toList.length ≤ token.start ∧
        ∀ comment ∈ token.leading.head?, comment.newlineBefore = true := by
  have hall : ∀ {gap : List Lexeme} {after : List Char} {token : Token}, Fills gap after →
      token.Follows false position gap → (∀ c ∈ after.head?, isBlank c = false) →
      style.text.toList <+: charsOf gap ++ after →
      position + style.text.toList.length ≤ token.start ∧
        ∀ comment ∈ token.leading.head?, comment.newlineBefore = true := by
    intro gap after token hfills hfollows hafter hbreak
    refine ⟨?_, fun comment hcomment => ?_⟩
    · have hlength := length_le_of_prefix (isBlank_of_mem_lineBreak style) hbreak hafter
      have hstart := hfollows.start
      omega
    · have hfeeds := one_le_feeds_of_lineBreak hfills hbreak
      obtain ⟨rest, hleading⟩ := List.head?_eq_some_iff.1 hcomment
      have hkept := hleading ▸ hfollows.leading
      obtain ⟨remark, remarks, hkeeps, -, hremarks⟩ := List.forall₂_cons_right_iff.1 hkept
      exact hkeeps.newlineBefore.2 (.inr (hfeeds remark (hremarks ▸ rfl)))
  cases h with
  | eof hfills hfollows =>
    rintro token ⟨⟩
    exact hall hfills hfollows nofun (by rwa [List.append_nil])
  | @token _ _ gap token rest _ hfills hfollows hkind hne hstart =>
    rintro token ⟨⟩
    refine hall hfills hfollows ?_ (by rwa [← List.append_assoc])
    have hsome : token.text.toList ≠ [] := fun hnil => hne (String.toList_inj.1 hnil)
    rwa [List.head?_append_of_ne_nil _ hsome]

theorem apart (h : Tiles first position chars tokens) {style : NewlineStyle}
    (htext : text.drop position = chars) {index : Nat}
    (hbreak : style.text.toList <+: text.drop (tokens.getD index .atEnd).stop) :
    ∀ token ∈ tokens[index + 1]?,
      (tokens.getD index .atEnd).stop + style.text.toList.length ≤ token.start ∧
        ∀ comment ∈ token.leading.head?, comment.newlineBefore = true := by
  induction h generalizing index with
  | eof => exact nofun
  | @token first position gap token rest tokens hfills hfollows hkind hne hstart hrest ih =>
    have hdrop : text.drop token.stop = rest := by
      rw [hfollows.stop, hfollows.start, Nat.add_assoc, ← List.drop_drop, htext, List.append_assoc,
        ← List.drop_drop, List.drop_left, List.drop_left]
    cases index with
    | zero =>
      rw [List.getD_cons_zero, hdrop] at hbreak
      rw [List.getElem?_cons_succ, ← List.head?_eq_getElem?]
      exact hrest.apart_head hbreak
    | succ index =>
      rw [List.getD_cons_succ] at hbreak ⊢
      exact ih hdrop hbreak

end Tiles

/-! ### Lines -/

/-- What stands in front of a character on its line. -/
def lineBefore (chars : List Char) (offset : Nat) : List Char :=
  ((chars.take offset).reverse.takeWhile (· != '\n')).reverse

/-- A text that ends with a line break has an empty last line. -/
theorem lineBefore_length {chars : List Char} (h : chars = [] ∨ chars.getLast? = some '\n') :
    lineBefore chars chars.length = [] := by
  rcases h with rfl | h
  · rfl
  · obtain ⟨front, rfl⟩ := List.getLast?_eq_some_iff.1 h
    simp [lineBefore]

namespace Cursor

variable (cursor : Cursor)

theorem slice_eq (start stop : Nat) :
    cursor.slice start stop = (cursor.source.toList.drop start).take (stop - start) := by
  rw [slice, Array.toList_extract, List.extract_eq_take_drop]

theorem slice_append_drop {start stop : Nat} (h : start ≤ stop) :
    cursor.slice start stop ++ cursor.source.toList.drop stop = cursor.source.toList.drop start := by
  have hdrop : cursor.source.toList.drop stop =
      (cursor.source.toList.drop start).drop (stop - start) := by
    rw [List.drop_drop, Nat.add_sub_cancel' h]
  rw [slice_eq, hdrop, List.take_append_drop]

theorem slice_succ {start stop : Nat} (h : start ≤ stop) {c : Char}
    (hchar : cursor.source[stop]? = some c) :
    cursor.slice start (stop + 1) = cursor.slice start stop ++ [c] := by
  rw [slice_eq, slice_eq, Nat.sub_add_comm h, List.take_add_one, List.getElem?_drop,
    Nat.add_sub_cancel' h, Array.getElem?_toList, hchar, Option.toList_some]

theorem getElem?_of_drop {stop : Nat} {before later : List Char}
    (h : cursor.source.toList.drop stop = before ++ later) (index : Nat) :
    cursor.source[stop + index]? = (before ++ later)[index]? := by
  rw [← h, List.getElem?_drop, Array.getElem?_toList]

theorem lineStart_le (offset : Nat) : cursor.lineStart offset ≤ offset := by
  induction offset with
  | zero => exact Nat.le_refl 0
  | succ offset ih =>
    rw [lineStart]
    split
    · exact Nat.le_refl _
    · exact Nat.le_succ_of_le ih

/-- A line starts at the start of the text or after a line feed. -/
theorem lineStart_eq_zero_or (offset : Nat) : cursor.lineStart offset = 0 ∨
    ∃ before, cursor.lineStart offset = before + 1 ∧ cursor.source[before]? = some '\n' := by
  induction offset with
  | zero => exact .inl rfl
  | succ offset ih =>
    rw [lineStart]
    split
    next hfeed => exact .inr ⟨offset, rfl, beq_iff_eq.1 hfeed⟩
    next => exact ih

/-- The line of a character starts no earlier than after a line feed in front of the character. -/
theorem le_lineStart {before offset : Nat} (hfeed : cursor.source[before]? = some '\n')
    (hlt : before < offset) : before + 1 ≤ cursor.lineStart offset := by
  induction offset with
  | zero => cases hlt
  | succ offset ih =>
    rw [lineStart]
    split
    next => exact hlt
    next hnot =>
      refine ih (Nat.lt_of_le_of_ne (Nat.le_of_lt_succ hlt) ?_)
      rintro rfl
      exact hnot (beq_iff_eq.2 hfeed)

theorem slice_lineStart {offset : Nat} (h : offset ≤ cursor.source.toList.length) :
    cursor.slice (cursor.lineStart offset) offset = lineBefore cursor.source.toList offset := by
  induction offset with
  | zero => simp [slice_eq, lineBefore]
  | succ offset ih =>
    have hlt : offset < cursor.source.toList.length := h
    have hchar : cursor.source[offset]? = some cursor.source.toList[offset] := by
      rw [← Array.getElem?_toList, List.getElem?_eq_getElem hlt]
    rw [lineBefore, List.take_succ_eq_append_getElem hlt, List.reverse_append, List.reverse_singleton,
      List.singleton_append, lineStart, hchar]
    by_cases hfeed : cursor.source.toList[offset] = '\n'
    · simp [hfeed, slice_eq]
    · rw [if_neg (by simpa using hfeed), cursor.slice_succ (cursor.lineStart_le offset) hchar, ih (Nat.le_of_lt hlt), List.takeWhile_cons_of_pos
        (by simpa using hfeed), List.reverse_cons, lineBefore]

theorem findLineFeed_of_lineBreak {style : NewlineStyle} {stop : Nat}
    (hbreak : style.text.toList <+: cursor.source.toList.drop stop) :
    ∃ lineFeed, cursor.findLineFeed stop (cursor.source.size - stop) = some lineFeed ∧
      lineFeed + 1 = stop + style.text.toList.length ∧ cursor.source[lineFeed]? = some '\n' ∧
      (cursor.slice stop lineFeed).all isBlank = true := by
  obtain ⟨later, hlater⟩ := hbreak
  have hchars := cursor.getElem?_of_drop hlater.symm
  have hlength := congrArg List.length hlater
  rw [List.length_append, List.length_drop, Array.length_toList] at hlength
  cases style with
  | lf =>
    have hcount : cursor.source.size - stop = later.length + 1 :=
      hlength.symm.trans (Nat.add_comm _ _)
    have hfeed : cursor.source[stop]? = some '\n' := hchars 0
    refine ⟨stop, ?_, rfl, hfeed, ?_⟩
    · rw [hcount, findLineFeed, hfeed]
      rfl
    · rw [slice_eq, Nat.sub_self, List.take_zero]
      rfl
  | crlf =>
    have hcount : cursor.source.size - stop = later.length + 2 :=
      hlength.symm.trans (Nat.add_comm _ _)
    have hreturn : cursor.source[stop]? = some '\r' := hchars 0
    have hfeed : cursor.source[stop + 1]? = some '\n' := hchars 1
    refine ⟨stop + 1, ?_, rfl, hfeed, ?_⟩
    · rw [hcount, findLineFeed, hreturn, if_neg (by decide), findLineFeed, hfeed]
      rfl
    · rw [cursor.slice_succ (Nat.le_refl stop) hreturn, slice_eq, Nat.sub_self, List.take_zero]
      rfl

end Cursor

theorem Cursor.tokenAt_eq_getD (cursor : Cursor) (index : Nat) :
    cursor.tokenAt index = cursor.tokens.toList.getD index .atEnd := by
  rw [tokenAt, Array.getD_eq_getD_getElem?, List.getD_eq_getElem?_getD, Array.getElem?_toList]

theorem Cursor.tokenAt_eq_getElem (cursor : Cursor) {index : Nat}
    (h : index < cursor.tokens.size) : ∃ hlt : index < cursor.tokens.toList.length,
      cursor.tokenAt index = cursor.tokens.toList[index] :=
  ⟨by simpa using h, by rw [tokenAt_eq_getD, List.getD_eq_getElem]⟩

theorem Cursor.Onward.start_tokenAt {cursor cursor' : Cursor} (h : cursor.Onward cursor')
    (index : Nat) : (cursor'.tokenAt index).start = (cursor.tokenAt index).start := by
  have hbare := congrArg Token.start (h.bare index)
  exact hbare

theorem Cursor.Onward.stop_tokenAt {cursor cursor' : Cursor} (h : cursor.Onward cursor')
    (index : Nat) : (cursor'.tokenAt index).stop = (cursor.tokenAt index).stop := by
  have hbare := congrArg Token.stop (h.bare index)
  exact hbare

theorem Cursor.slice_congr {cursor cursor' : Cursor} (h : cursor'.source = cursor.source) :
    cursor'.slice = cursor.slice := by
  funext start stop
  rw [slice, slice, h]

theorem Cursor.lineStart_congr {cursor cursor' : Cursor} (h : cursor'.source = cursor.source) :
    cursor'.lineStart = cursor.lineStart := by
  funext offset
  induction offset with
  | zero => rfl
  | succ offset ih => rw [lineStart, lineStart, h, ih]

/-! ### Tokens that stand apart -/

/-- Whether nothing has been read from a cursor: its tokens still have their comments and tile the text. -/
structure Cursor.Unread (cursor : Cursor) : Prop where
  tiles : Tiles true 0 cursor.source.toList cursor.tokens.toList
  trailing : cursor.trailingEnd = none

/-- The tokens of a text without a byte order mark are unread at first. -/
theorem Cursor.unread_start {text : String} {result : List Token}
    (h : Source.tokens text = .ok result)
    (hmark : text.toList.head? ≠ some byteOrderMark) (nextId : NodeId) :
    (Cursor.start text.toList.toArray result nextId).Unread :=
  ⟨(tiles_tokens h).1 hmark, rfl⟩

namespace Cursor.Unread

variable {start cursor : Cursor} (hstart : start.Unread) (honward : start.Onward cursor)
  {style : NewlineStyle} {index index' : Nat}

include hstart

theorem start_le_stop (hindex : index < start.tokens.size) :
    (start.tokenAt index).start ≤ (start.tokenAt index).stop ∧
      (start.tokenAt index).stop ≤ start.source.toList.length := by
  obtain ⟨hlt, heq⟩ := start.tokenAt_eq_getElem hindex
  obtain ⟨-, hle, hle'⟩ := hstart.tiles.bounds _ (List.getElem_mem hlt)
  rw [heq]
  exact ⟨hle, by rwa [Nat.zero_add] at hle'⟩

theorem stop_le_start (hlt : index < index') (hindex : index' < start.tokens.size) :
    (start.tokenAt index).stop ≤ (start.tokenAt index').start := by
  obtain ⟨hlt', heq'⟩ := start.tokenAt_eq_getElem hindex
  obtain ⟨hlt'', heq⟩ := start.tokenAt_eq_getElem (Nat.lt_trans hlt hindex)
  rw [heq, heq']
  exact List.pairwise_iff_getElem.1 hstart.tiles.pairwise index index' hlt'' hlt' hlt

theorem start_le_stop_of_le (hle : index ≤ index') (hindex : index' < start.tokens.size) :
    (start.tokenAt index).start ≤ (start.tokenAt index').stop := by
  rcases Nat.lt_or_eq_of_le hle with hlt | rfl
  · refine Nat.le_trans (hstart.start_le_stop (Nat.lt_trans hlt hindex)).1 ?_
    exact Nat.le_trans (hstart.stop_le_start hlt hindex) (hstart.start_le_stop hindex).1
  · exact (hstart.start_le_stop hindex).1

/-- Only the last token is an end of file. -/
theorem lt_size_of_kind (hkind : (start.tokenAt index).kind ≠ .eof) :
    index + 1 < start.tokens.size := by
  obtain ⟨front, last, htokens, hlast, -, -⟩ := hstart.tiles.exists_last
  have hsize : start.tokens.size = front.length + 1 := by
    rw [← Array.length_toList, htokens, List.length_append, List.length_singleton]
  rw [tokenAt_eq_getD, htokens] at hkind
  rw [hsize]
  refine Nat.add_lt_add_right ?_ 1
  by_contra hge
  rw [List.getD_append_right _ _ _ _ (Nat.le_of_not_lt hge)] at hkind
  cases hrest : index - front.length with
  | zero => exact hkind (by rw [hrest]; exact hlast)
  | succ rest => exact hkind (by rw [hrest]; rfl)

theorem size_pos : 0 < start.tokens.size := by
  obtain ⟨front, last, htokens, -⟩ := hstart.tiles.exists_last
  rw [← Array.length_toList, htokens, List.length_append]
  exact Nat.zero_lt_succ _

theorem start_last : (start.tokenAt (start.tokens.size - 1)).start = start.source.toList.length := by
  obtain ⟨front, last, htokens, -, hend, -⟩ := hstart.tiles.exists_last
  have hsize : start.tokens.size - 1 = front.length := by
    rw [← Array.length_toList, htokens, List.length_append, List.length_singleton,
      Nat.add_sub_cancel]
  rw [tokenAt_eq_getD, htokens, hsize, List.getD_append_right _ _ _ _ (Nat.le_refl _), Nat.sub_self,
    List.getD_cons_zero, hend, Nat.zero_add]

theorem apart
    (hbreak : style.text.toList <+: start.source.toList.drop (start.tokenAt index).stop) :
    ¬ start.SharesLine (index + 1) ∧ (index + 1 < start.tokens.size →
      (start.tokenAt index).stop + style.text.toList.length ≤ (start.tokenAt (index + 1)).start) := by
  rw [tokenAt_eq_getD] at hbreak
  have hapart := hstart.tiles.apart rfl hbreak
  rw [← tokenAt_eq_getD] at hapart
  by_cases hlt : index + 1 < start.tokens.size
  · obtain ⟨hlt', heq⟩ := start.tokenAt_eq_getElem hlt
    obtain ⟨hle, hnew⟩ := hapart _ (List.getElem?_eq_getElem hlt')
    rw [← heq] at hle hnew
    refine ⟨?_, fun _ => hle⟩
    rintro ⟨comment, hcomment, hshares⟩
    rw [hnew comment hcomment] at hshares
    cases hshares
  · refine ⟨?_, fun hlt' => absurd hlt' hlt⟩
    rintro ⟨comment, hcomment, -⟩
    have hend : start.tokenAt (index + 1) = .atEnd := by
      rw [tokenAt, Array.getD_eq_getD_getElem?, Array.getElem?_eq_none (Nat.le_of_not_lt hlt)]
      rfl
    rw [hend] at hcomment
    cases hcomment

include honward

theorem endBefore_eq (hshares : ¬ start.SharesLine index) :
    cursor.endBefore index = (start.tokenAt (index - 1)).stop := by
  have hstop := honward.stop_tokenAt (index - 1)
  rw [endBefore]
  split
  next taken stop htrailing =>
    split
    next htaken =>
      rw [beq_iff_eq.1 htaken] at htrailing
      rcases honward.trailing index stop htrailing with htrailing | hshares'
      · rw [hstart.trailing] at htrailing
        cases htrailing
      · exact absurd hshares' hshares
    next => exact hstop
  next => exact hstop

theorem gapStart?_eq
    (hbreak : style.text.toList <+: start.source.toList.drop (start.tokenAt index).stop) :
    cursor.gapStart? (index + 1) =
      some ((start.tokenAt index).stop + style.text.toList.length) := by
  have hstop : cursor.endBefore (index + 1) = (start.tokenAt index).stop :=
    hstart.endBefore_eq honward (hstart.apart hbreak).1
  rw [← honward.source] at hbreak
  obtain ⟨lineFeed, hfind, hlength, -, hblank⟩ := cursor.findLineFeed_of_lineBreak hbreak
  rw [gapStart?, if_neg (by simp)]
  simp only [hstop, hfind, hblank, if_true, hlength]

theorem startsLine_eq (hindex : index < start.tokens.size)
    (hblank : ∀ c ∈ lineBefore start.source.toList (start.tokenAt index).start,
      isBlank c = true) : cursor.startsLine index = true := by
  obtain ⟨hle, hle'⟩ := hstart.start_le_stop hindex
  rw [startsLine, honward.start_tokenAt, slice_congr honward.source,
    lineStart_congr honward.source, slice_lineStart _ (Nat.le_trans hle hle'), List.all_eq_true]
  exact hblank

theorem gap?_eq {first : Nat} (hindex : index < start.tokens.size)
    (hblank : ∀ c ∈ lineBefore start.source.toList (start.tokenAt index).start, isBlank c = true)
    (hfirst : cursor.gapStart? index = some first)
    (hle : first ≤ start.lineStart (start.tokenAt index).start) (indented : Bool) :
    cursor.gap? index indented = some (start.slice first (if indented then
      (start.tokenAt index).start else start.lineStart (start.tokenAt index).start)) := by
  simp only [gap?, hstart.startsLine_eq honward hindex hblank, if_true, hfirst,
    honward.start_tokenAt, slice_congr honward.source, lineStart_congr honward.source,
    if_neg (Nat.not_lt_of_le hle)]

end Cursor.Unread

end AdviceMigration.Source
