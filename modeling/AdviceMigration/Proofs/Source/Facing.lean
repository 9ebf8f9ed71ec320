import AdviceMigration.Proofs.Source.Fitting
import AdviceMigration.Proofs.Source.Termination
import AdviceMigration.Proofs.Source.Productions

/-!
# What a cursor has in front of it

A cursor faces lexemes if the tokens from its position on are those of the lexemes. `Delivers` says of a parser that it succeeds from each such cursor, and what it answers and faces then; a production is settled by what its parts do to the lexemes in front of it. What is tried and taken back does not show: a parenthesis in a text of operands and operators starts no cast and no lambda expression.
-/

namespace AdviceMigration.Source

open Grammar (canStartOperand arrowAfterParens?)

/-! ### Words without casts and lambda expressions -/

/-- Whether no operand stands right behind a parenthesis that is closed, and no arrow and no primitive type is among some words. -/
structure Calm (words : List Word) : Prop where
  chain : words.IsChain fun before word =>
    before.kind = .punct .rParen → canStartOperand word.kind = false
  plain : ∀ word ∈ words, word.kind ≠ .punct .arrow ∧ word.kind.isPrimitive = false

theorem Calm.tail {word : Word} {words : List Word} (h : Calm (word :: words)) : Calm words :=
  ⟨h.chain.tail, fun _ hmem => h.plain _ (.tail _ hmem)⟩

/-- The first word of lexemes. Behind a blank it touches no token. -/
theorem exists_wordsOf_eq (joint : Bool) (lexemes : List Lexeme) :
    ∃ word words, wordsOf joint lexemes = word :: words ∧ word.kind = nextKind lexemes ∧
      (joint = false → word.joint = false) := by
  induction lexemes generalizing joint with
  | nil => exact ⟨_, _, rfl, rfl, id⟩
  | cons lexeme rest ih =>
    cases lexeme with
    | token kind chars => exact ⟨_, _, rfl, rfl, id⟩
    | byteOrderMark => exact ih joint
    | blank | lineFeed | comment =>
      obtain ⟨word, words, hwords, hkind, hjoint⟩ := ih false
      exact ⟨word, words, hwords, hkind, fun _ => hjoint rfl⟩

theorem FitsAll.calm {lexemes : List Lexeme} (h : FitsAll lexemes) (joint : Bool) :
    Calm (wordsOf joint lexemes) := by
  induction lexemes generalizing joint with
  | nil => exact ⟨.singleton _, fun word hmem => by cases List.mem_singleton.1 hmem; exact ⟨nofun, rfl⟩⟩
  | cons lexeme rest ih =>
    cases lexeme with
    | token kind chars =>
      obtain ⟨⟨-, harrow, hprimitive, hparen⟩, hrest⟩ := h
      obtain ⟨word, words, hwords, hkind, -⟩ := exists_wordsOf_eq true rest
      have hcalm := ih hrest true
      refine ⟨List.isChain_cons.2 ⟨fun word' hmem => ?_, hcalm.chain⟩,
        List.forall_mem_cons.2 ⟨⟨harrow, hprimitive⟩, hcalm.plain⟩⟩
      rw [hwords] at hmem
      cases hmem
      rw [hkind]
      exact hparen
    | byteOrderMark => exact ih h.2 joint
    | blank | lineFeed | comment => exact ih h.2 false

/-! ### Cursors that face lexemes -/

theorem Cursor.Onward.word_tokenAt {cursor cursor' : Cursor} (h : cursor.Onward cursor') (index : Nat) :
    (cursor'.tokenAt index).word = (cursor.tokenAt index).word :=
  congrArg (fun token => (⟨token.kind, token.text, token.joint⟩ : Word)) (h.bare index)

/-- Whether a condition on words holds of the rest when a word is passed. -/
class Hereditary (holds : List Word → Prop) : Prop where
  tail {word : Word} {words : List Word} : holds (word :: words) → holds words

instance : Hereditary Calm := ⟨Calm.tail⟩

instance : Hereditary fun _ => True := ⟨id⟩

/-- Whether a sound cursor at or after `floor` has lexemes in front of it, and nothing but these, and a condition holds of their words. The flag tells whether a token stands right in front of them. -/
structure Cursor.Sees (holds : List Word → Prop) (size floor : Nat) (joint : Bool) (lexemes : List Lexeme)
    (cursor : Cursor) : Prop where
  sound : cursor.Sound size
  floor : floor ≤ cursor.position
  words : (cursor.tokens.toList.drop cursor.position).map Token.word = wordsOf joint lexemes
  known : holds (wordsOf joint lexemes)

/-- Whether a cursor has lexemes in front of it that start no cast and no lambda expression. -/
abbrev Cursor.Faces : Nat → Nat → Bool → List Lexeme → Cursor → Prop := Cursor.Sees Calm

namespace Cursor.Sees

variable {holds : List Word → Prop} {size floor : Nat} {joint : Bool} {lexemes rest : List Lexeme}
  {cursor : Cursor}

theorem mono (h : cursor.Sees holds size floor joint lexemes) {floor' : Nat} (hle : floor' ≤ floor) :
    cursor.Sees holds size floor' joint lexemes :=
  { h with floor := Nat.le_trans hle h.floor }

theorem gap (h : cursor.Sees holds size floor joint (gapLexeme :: rest)) :
    cursor.Sees holds size floor false rest := ⟨h.sound, h.floor, h.words, h.known⟩

theorem word_tokenAt (h : cursor.Sees holds size floor joint lexemes) (n : Nat) :
    (cursor.tokenAt (cursor.position + n)).word =
      (wordsOf joint lexemes)[n]?.getD Token.atEnd.word := by
  rw [← h.words, List.getElem?_map, List.getElem?_drop, tokenAt, Array.getD_eq_getD_getElem?,
    Array.getElem?_toList]
  cases cursor.tokens[cursor.position + n]? <;> rfl

theorem kind_current (h : cursor.Sees holds size floor joint lexemes) :
    cursor.current.kind = nextKind lexemes := by
  obtain ⟨word, words, hwords, hkind, -⟩ := exists_wordsOf_eq joint lexemes
  have hword := h.word_tokenAt 0
  rw [hwords] at hword
  exact (congrArg Word.kind hword).trans hkind

theorem text_current {kind : TokenKind} {chars : List Char}
    (h : cursor.Sees holds size floor joint (.token kind chars :: rest)) :
    cursor.current.text = String.ofList chars := congrArg Word.text (h.word_tokenAt 0)

theorem position_lt (h : cursor.Sees holds size floor joint lexemes) : cursor.position < cursor.tokens.size :=
  h.sound.count ▸ h.sound.position

theorem here_eq (h : cursor.Sees holds size floor joint lexemes) : here cursor = .ok cursor cursor :=
  Source.here_eq h.position_lt

/-- Another cursor over the same tokens without their comments, at the same position. -/
theorem of_onward (h : cursor.Sees holds size floor joint lexemes) {cursor' : Cursor}
    (honward : cursor.Onward cursor') (hsound : cursor'.Sound size)
    (hposition : cursor'.position = cursor.position) : cursor'.Sees holds size floor joint lexemes := by
  refine ⟨hsound, hposition ▸ h.floor, ?_, h.known⟩
  rw [← h.words, hposition]
  refine List.ext_getElem? fun n => ?_
  have hn := honward.word_tokenAt (cursor.position + n)
  simp only [tokenAt, Array.getD_eq_getD_getElem?] at hn
  simp only [List.getElem?_map, List.getElem?_drop, Array.getElem?_toList]
  by_cases hlt : cursor.position + n < cursor.tokens.size
  · have hlt' : cursor.position + n < cursor'.tokens.size := honward.size ▸ hlt
    simp only [Array.getElem?_eq_getElem hlt, Array.getElem?_eq_getElem hlt', Option.getD_some] at hn ⊢
    exact congrArg some hn
  · have hge : ¬ cursor.position + n < cursor'.tokens.size := honward.size ▸ hlt
    rw [Array.getElem?_eq_none (Nat.le_of_not_lt hlt), Array.getElem?_eq_none (Nat.le_of_not_lt hge)]

theorem freshId (h : cursor.Sees holds size floor joint lexemes) (nextId : NodeId) :
    Cursor.Sees holds size floor joint lexemes { cursor with nextId := nextId } :=
  ⟨h.sound.move rfl rfl rfl h.sound.position, h.floor, h.words, h.known⟩

/-- A token in front of the cursor is followed by another one. -/
theorem next_lt {kind : TokenKind} {chars : List Char}
    (h : cursor.Sees holds size floor joint (.token kind chars :: rest)) :
    cursor.position + 1 < cursor.tokens.size := by
  obtain ⟨word, words, hwords, -⟩ := exists_wordsOf_eq true rest
  have hlength := congrArg List.length h.words
  simp only [wordsOf, hwords, List.length_map, List.length_drop, List.length_cons,
    Array.length_toList] at hlength
  omega

theorem next [Hereditary holds] {kind : TokenKind} {chars : List Char}
    (h : cursor.Sees holds size floor joint (.token kind chars :: rest)) :
    cursor.next.Sees holds size (floor + 1) true rest := by
  rw [Cursor.next, if_pos h.next_lt]
  refine ⟨h.sound.move rfl rfl rfl (h.sound.count ▸ h.next_lt), Nat.succ_le_succ h.floor, ?_, Hereditary.tail h.known⟩
  have hwords := congrArg List.tail h.words
  rwa [wordsOf, List.tail_cons, ← List.map_tail, List.tail_drop] at hwords

end Cursor.Sees

/-! ### Parsers that answer -/

/-- Whether a parser succeeds from every cursor that meets a condition, and what holds of its answer and the cursor it leaves. -/
def Delivers {α : Type} (parser : Parser α) (before : Cursor → Prop) (after : α → Cursor → Prop) :
    Prop :=
  ∀ ⦃cursor⦄, before cursor → ∃ value cursor', parser cursor = .ok value cursor' ∧ after value cursor'

namespace Delivers

variable {α β : Type} {parser : Parser α} {next : α → Parser β} {before before' : Cursor → Prop}
  {middle : α → Cursor → Prop} {after : β → Cursor → Prop} {value : α}

theorem pure {after : α → Cursor → Prop} (h : ∀ cursor, before cursor → after value cursor) :
    Delivers (pure value) before after := fun cursor hbefore => ⟨value, cursor, rfl, h cursor hbefore⟩

theorem bind (h : Delivers parser before middle) (hnext : ∀ value, Delivers (next value) (middle value) after) :
    Delivers (parser >>= next) before after := by
  intro cursor hbefore
  obtain ⟨value, cursor', hok, hmiddle⟩ := h hbefore
  obtain ⟨result, cursor'', hok', hafter⟩ := hnext value hmiddle
  refine ⟨result, cursor'', ?_, hafter⟩
  change EStateM.bind parser next cursor = _
  rw [EStateM.bind, hok]
  exact hok'

/-- A parser whose answer is known leaves the cursor as another condition says. -/
theorem bindEq (h : Delivers parser before fun result cursor => result = value ∧ before' cursor)
    (hnext : Delivers (next value) before' after) : Delivers (parser >>= next) before after := by
  refine h.bind fun result cursor hresult => ?_
  obtain ⟨rfl, hbefore'⟩ := hresult
  exact hnext hbefore'

/-- A parser that looks, and what is done with its answer. -/
theorem look (h : ∀ ⦃cursor⦄, before cursor → parser cursor = .ok value cursor)
    (hnext : Delivers (next value) before after) : Delivers (parser >>= next) before after :=
  bindEq (fun cursor hbefore => ⟨value, cursor, h hbefore, rfl, hbefore⟩) hnext

theorem weaken {after' : β → Cursor → Prop} {parser : Parser β} (h : Delivers parser before after)
    (hbefore : ∀ cursor, before' cursor → before cursor)
    (hafter : ∀ result cursor, after result cursor → after' result cursor) :
    Delivers parser before' after' := by
  intro cursor hcursor
  obtain ⟨result, cursor', hok, hresult⟩ := h (hbefore cursor hcursor)
  exact ⟨result, cursor', hok, hafter result cursor' hresult⟩

/-- What is known whatever the cursor may be used. -/
theorem known {parser : Parser β} {holds : Prop} (h : holds → Delivers parser before after) :
    Delivers parser (fun cursor => holds ∧ before cursor) after :=
  fun _ hbefore => h hbefore.1 hbefore.2

end Delivers

section Primitives

variable {β : Type} {holds : List Word → Prop} {size floor : Nat} {joint : Bool} {lexemes rest : List Lexeme} {kind : TokenKind}
  {chars : List Char} {after : β → Cursor → Prop}

/-- No cursor is past the last token. -/
theorem delivers_of_size_le {parser : Parser β} (h : size ≤ floor) :
    Delivers parser (Cursor.Sees holds size floor joint lexemes) after :=
  fun _ hfaces => absurd hfaces.sound.position (Nat.not_lt_of_le (Nat.le_trans h hfaces.floor))

/-- What is done behind a blank. -/
theorem delivers_gap {parser : Parser β} (h : Delivers parser (Cursor.Sees holds size floor false rest) after) :
    Delivers parser (Cursor.Sees holds size floor joint (gapLexeme :: rest)) after :=
  h.weaken (fun _ => Cursor.Sees.gap) fun _ _ => id

/-- What is done with the cursor, as far as the lexemes in front of it determine that. -/
theorem delivers_here {next : Cursor → Parser β} {next' : Parser β}
    (heq : ∀ cursor, cursor.Sees holds size floor joint lexemes → next cursor = next')
    (h : Delivers next' (Cursor.Sees holds size floor joint lexemes) after) :
    Delivers (do next (← here)) (Cursor.Sees holds size floor joint lexemes) after := by
  intro cursor hfaces
  obtain ⟨result, cursor', hok, hafter⟩ := h hfaces
  refine ⟨result, cursor', ?_, hafter⟩
  change EStateM.bind here next cursor = _
  rw [EStateM.bind, hfaces.here_eq]
  change next cursor cursor = _
  rw [heq cursor hfaces, hok]

theorem kind_eq {cursor : Cursor} (h : cursor.position < cursor.tokens.size) :
    Source.kind cursor = .ok cursor.current.kind cursor := by
  change EStateM.bind here _ cursor = _
  rw [EStateM.bind, here_eq h]
  rfl

theorem delivers_kind {next : TokenKind → Parser β}
    (h : Delivers (next (nextKind lexemes)) (Cursor.Sees holds size floor joint lexemes) after) :
    Delivers (Source.kind >>= next) (Cursor.Sees holds size floor joint lexemes) after := by
  refine .look (fun cursor hfaces => ?_) h
  rw [kind_eq hfaces.position_lt, hfaces.kind_current]

theorem delivers_atKind {next : Bool → Parser β} (wanted : TokenKind)
    (h : Delivers (next (nextKind lexemes == wanted)) (Cursor.Sees holds size floor joint lexemes) after) :
    Delivers (atKind wanted >>= next) (Cursor.Sees holds size floor joint lexemes) after := by
  refine .look (fun cursor hfaces => ?_) h
  rw [atKind_eq hfaces.position_lt, hfaces.kind_current]

/-- What stands behind the token in front of the cursor. -/
theorem delivers_peek {next : TokenKind → Parser β}
    (h : Delivers (next (nextKind rest)) (Cursor.Sees holds size floor joint (.token kind chars :: rest)) after) :
    Delivers (peek 1 >>= next) (Cursor.Sees holds size floor joint (.token kind chars :: rest)) after := by
  refine .look (fun cursor hfaces => ?_) h
  obtain ⟨word, words, hwords, hkind, -⟩ := exists_wordsOf_eq true rest
  have hword := hfaces.word_tokenAt 1
  rw [wordsOf, hwords] at hword
  change EStateM.Result.ok (cursor.tokenAt (cursor.position + 1)).kind cursor = _
  rw [← hkind]
  exact congrArg (EStateM.Result.ok · cursor) (congrArg Word.kind hword)

theorem delivers_bump [Hereditary holds] : Delivers bump (Cursor.Sees holds size floor joint (.token kind chars :: rest)) fun _ =>
    Cursor.Sees holds size (floor + 1) true rest :=
  fun _ hfaces => ⟨(), _, bump_eq_next _, hfaces.next⟩

/-- The token in front of the cursor is passed. -/
theorem delivers_pass [Hereditary holds] {next : Unit → Parser β}
    (h : Delivers (next ()) (Cursor.Sees holds size (floor + 1) true rest) after) :
    Delivers (bump >>= next) (Cursor.Sees holds size floor joint (.token kind chars :: rest)) after :=
  delivers_bump.bind fun _ => h

theorem delivers_text [Hereditary holds] : Delivers bumpText
    (Cursor.Sees holds size floor joint (.token kind chars :: rest)) fun text cursor =>
      text = String.ofList chars ∧ cursor.Sees holds size (floor + 1) true rest := by
  intro cursor hfaces
  refine ⟨_, _, ?_, rfl, hfaces.next⟩
  change EStateM.bind here _ cursor = _
  rw [EStateM.bind, hfaces.here_eq]
  rw [← hfaces.text_current]
  rfl

theorem delivers_bumpText [Hereditary holds] {next : String → Parser β}
    (h : Delivers (next (String.ofList chars)) (Cursor.Sees holds size (floor + 1) true rest) after) :
    Delivers (bumpText >>= next) (Cursor.Sees holds size floor joint (.token kind chars :: rest)) after :=
  .bindEq delivers_text h

theorem delivers_eat [Hereditary holds] {next : Bool → Parser β}
    (h : Delivers (next true) (Cursor.Sees holds size (floor + 1) true rest) after) :
    Delivers (eat kind >>= next) (Cursor.Sees holds size floor joint (.token kind chars :: rest)) after := by
  refine .bindEq (delivers_atKind kind ?_) h
  rw [nextKind, beq_self_eq_true]
  exact delivers_pass (.pure fun _ hfaces => ⟨rfl, hfaces⟩)

/-- A token of another kind is left alone. -/
theorem delivers_eat_ne {next : Bool → Parser β} {wanted : TokenKind} (hkind : nextKind lexemes ≠ wanted)
    (h : Delivers (next false) (Cursor.Sees holds size floor joint lexemes) after) :
    Delivers (eat wanted >>= next) (Cursor.Sees holds size floor joint lexemes) after := by
  refine .bindEq (delivers_atKind wanted ?_) h
  rw [beq_eq_false_iff_ne.2 hkind]
  exact .pure fun _ hfaces => ⟨rfl, hfaces⟩

theorem delivers_expect [Hereditary holds] (message : String) {next : Unit → Parser β}
    (h : Delivers (next ()) (Cursor.Sees holds size (floor + 1) true rest) after) :
    Delivers (expect kind message >>= next) (Cursor.Sees holds size floor joint (.token kind chars :: rest))
      after := by
  have hpassed : Delivers (expect kind message) (Cursor.Sees holds size floor joint (.token kind chars :: rest))
      fun _ => Cursor.Sees holds size (floor + 1) true rest := delivers_eat (.pure fun _ => id)
  exact hpassed.bind fun _ => h

theorem delivers_freshId {next : NodeId → Parser β}
    (h : ∀ id, Delivers (next id) (Cursor.Sees holds size floor joint lexemes) after) :
    Delivers (freshId >>= next) (Cursor.Sees holds size floor joint lexemes) after :=
  .bind (fun _ hfaces => ⟨_, _, rfl, hfaces.freshId _⟩) h

end Primitives

/-! ### Lambda expressions and casts -/

section Lookahead

variable {β : Type} {size floor : Nat} {joint : Bool} {lexemes rest : List Lexeme} {after : β → Cursor → Prop}

/-- Only an arrow is taken for the arrow of a lambda expression. -/
theorem mem_of_arrowAfterParens? {depth : Nat} {kinds : List TokenKind}
    (h : arrowAfterParens? depth kinds = some true) : .punct .arrow ∈ kinds := by
  induction kinds generalizing depth with
  | nil => cases h
  | cons kind rest ih =>
    unfold arrowAfterParens? at h
    split at h
    next heq => cases heq
    next heq =>
      cases heq
      exact .tail _ (ih h)
    next heq =>
      cases heq
      split at h
      · cases h
      · have hhead := beq_iff_eq.1 (Option.some.inj h)
        exact .tail _ (List.mem_of_head? hhead)
      · exact .tail _ (ih h)
    next => cases h
    next => cases h
    next => cases h
    next heq =>
      cases heq
      exact .tail _ (ih h)

/-- The kinds of the tokens from the position of a cursor on. -/
theorem Cursor.Faces.kinds {cursor : Cursor} (h : cursor.Faces size floor joint lexemes) :
    (cursor.tokens.extract cursor.position cursor.tokens.size).toList.map (·.kind) =
      (wordsOf joint lexemes).map Word.kind := by
  rw [← h.words, List.map_map, Array.toList_extract, List.extract_eq_take_drop,
    List.take_of_length_le (by simp)]
  rfl

theorem Cursor.Faces.atLambda_eq {cursor : Cursor} (h : cursor.Faces size floor joint lexemes) :
    Grammar.atLambda cursor = .ok false cursor := by
  have hnoArrow : .punct .arrow ∉ (wordsOf joint lexemes).map Word.kind := by
    intro hmem
    obtain ⟨word, hword, hkind⟩ := List.mem_map.1 hmem
    exact (h.known.plain word hword).1 hkind
  change EStateM.bind here _ cursor = _
  rw [EStateM.bind, h.here_eq]
  dsimp only
  by_cases hnoLambda : cursor.noLambda = true
  · rw [if_pos hnoLambda]
    rfl
  · rw [if_neg hnoLambda]
    cases hcurrent : cursor.current.kind with
    | ident =>
      change EStateM.Result.ok ((cursor.tokenAt (cursor.position + 1)).kind == .punct .arrow) cursor = _
      rw [beq_eq_false_iff_ne.2]
      intro hkind
      have hword := congrArg Word.kind (h.word_tokenAt 1)
      change (cursor.tokenAt (cursor.position + 1)).kind = _ at hword
      rw [hkind] at hword
      cases hsecond : (wordsOf joint lexemes)[1]? with
      | none =>
        rw [hsecond] at hword
        cases hword
      | some word =>
        rw [hsecond] at hword
        exact hnoArrow (List.mem_map.2 ⟨word, List.mem_of_getElem? hsecond, hword.symm⟩)
    | punct punct =>
      cases punct with
      | lParen =>
        have hsome := Grammar.arrowAfterParens?_of_current hcurrent
        rw [h.kinds] at hsome
        dsimp only
        rw [h.kinds]
        cases hfound : arrowAfterParens? 0 ((wordsOf joint lexemes).map Word.kind) with
        | none => exact absurd hfound hsome
        | some isLambda =>
          cases isLambda with
          | true => exact absurd (mem_of_arrowAfterParens? hfound) hnoArrow
          | false => rfl
      | _ => rfl
    | _ => rfl

/-- No lambda expression starts here. -/
theorem delivers_atLambda {next : Bool → Parser β}
    (h : Delivers (next false) (Cursor.Faces size floor joint lexemes) after) :
    Delivers (Grammar.atLambda >>= next) (Cursor.Faces size floor joint lexemes) after :=
  .look (fun _ hfaces => hfaces.atLambda_eq) h

/-- No operand stands behind a word that is a closed parenthesis, nor does one at the end. -/
theorem Calm.canStartOperand_eq_false {words : List Word} (h : Calm words) {n : Nat}
    (hparen : (words[n]?.getD Token.atEnd.word).kind = .punct .rParen) :
    canStartOperand (words[n + 1]?.getD Token.atEnd.word).kind = false := by
  by_cases hnext : n + 1 < words.length
  · have hn := Nat.lt_of_succ_lt hnext
    rw [List.getElem?_eq_getElem hn] at hparen
    rw [List.getElem?_eq_getElem hnext]
    exact List.isChain_iff_getElem.1 h.chain n hnext hparen
  · rw [List.getElem?_eq_none (Nat.le_of_not_lt hnext)]
    rfl

/-- Whether a cursor has been left at another place by what was tried from a cursor. -/
structure Cursor.Tried (size : Nat) (cursor cursor' : Cursor) : Prop where
  onward : cursor.Onward cursor'
  sound : cursor'.Sound size
  position : cursor.position ≤ cursor'.position

variable {cursor : Cursor}

theorem delivers_attempt {α : Type} {parser : Parser α} (hhalts : Stays size cursor.position parser)
    (hproceeds : Proceeds cursor.position parser) :
    Delivers (attempt parser) (cursor.Tried size) fun _ => cursor.Tried size := by
  intro cursor' htried
  cases hrun : parser cursor' with
  | ok value cursor'' =>
    have honward := (hproceeds.ok htried.position hrun).1
    obtain ⟨hsound, hposition⟩ := hhalts.ok htried.sound htried.position hrun
    exact ⟨some value, cursor'', by rw [attempt, hrun], htried.onward.trans honward, hsound, hposition⟩
  | error failure cursor'' =>
    obtain ⟨honward, hposition⟩ := hproceeds.error htried.position hrun
    obtain ⟨hsound, error, rfl⟩ := hhalts.error htried.sound htried.position hrun
    exact ⟨none, cursor'', by rw [attempt, hrun], htried.onward.trans honward, hsound, hposition⟩

/-- What was tried is taken back. -/
theorem delivers_rewind (h : cursor.Faces size floor joint lexemes) :
    Delivers (do rewind cursor.position; return none : Parser (Option TypeRef)) (cursor.Tried size)
      fun type cursor => type = none ∧ cursor.Faces size floor joint lexemes := by
  intro cursor' htried
  refine ⟨none, { cursor' with position := cursor.position }, rfl, rfl, h.of_onward ?_ ?_ rfl⟩
  · exact htried.onward.trans (.of_eq rfl rfl rfl (Nat.le_refl _))
  · exact htried.sound.move rfl rfl rfl h.sound.position

theorem Cursor.Tried.next {cursor' : Cursor} (h : cursor.Tried size cursor') :
    cursor.Tried size cursor'.next := by
  unfold Cursor.next
  split
  next hlt =>
    exact ⟨h.onward.trans (.of_eq rfl rfl rfl (Nat.le_refl _)),
      h.sound.move rfl rfl rfl (h.sound.count ▸ hlt), Nat.le_succ_of_le h.position⟩
  next => exact h

theorem Cursor.Tried.kind_eq {cursor' : Cursor} (h : cursor.Tried size cursor') :
    ∀ ⦃other⦄, other = cursor' → kind other = .ok cursor'.current.kind other := by
  rintro _ rfl
  exact Source.kind_eq (h.sound.count ▸ h.sound.position)

/-- What stands behind a closed parenthesis starts no operand, wherever that is. -/
theorem Cursor.Tried.canStartOperand_next {cursor' : Cursor} (h : cursor.Tried size cursor')
    (hfaces : cursor.Faces size floor joint lexemes) (hparen : cursor'.current.kind = .punct .rParen) :
    canStartOperand cursor'.next.current.kind = false := by
  obtain ⟨n, hn⟩ := Nat.exists_eq_add_of_le h.position
  have hlt : cursor'.position + 1 < cursor'.tokens.size := by
    rw [h.sound.count]
    refine h.sound.next _ ?_
    rw [← Cursor.current, hparen]
    rintro ⟨⟩
  have hword (m : Nat) : (cursor'.tokenAt (cursor'.position + m)).kind =
      ((wordsOf joint lexemes)[n + m]?.getD Token.atEnd.word).kind := by
    rw [hn, Nat.add_assoc, ← hfaces.word_tokenAt, ← h.onward.word_tokenAt]
    rfl
  have hnext : cursor'.next.current = cursor'.tokenAt (cursor'.position + 1) := by
    rw [Cursor.next, if_pos hlt]
    rfl
  rw [hnext, hword]
  exact hfaces.known.canStartOperand_eq_false ((hword 0).symm.trans hparen)

theorem delivers_eatTried (punct : Punct) : Delivers (eatPunct punct) (cursor.Tried size) fun found cursor' =>
    ∃ before, cursor.Tried size before ∧
      (if found then before.current.kind = .punct punct ∧ cursor' = before.next else cursor' = before) := by
  intro before htried
  have hlt : before.position < before.tokens.size := htried.sound.count ▸ htried.sound.position
  have heat := eatPunct_bind punct pure hlt
  rw [bind_pure] at heat
  by_cases hkind : before.current.kind = .punct punct
  · rw [if_pos hkind] at heat
    exact ⟨true, _, heat, before, htried, hkind, rfl⟩
  · rw [if_neg hkind] at heat
    exact ⟨false, _, heat, before, htried, rfl⟩

variable {g : Grammar}

/-- No primitive type stands behind the position of a cursor. -/
theorem Cursor.Faces.isPrimitive_next (h : cursor.Faces size floor joint lexemes) :
    cursor.next.current.kind.isPrimitive = false := by
  have hword (n : Nat) : (cursor.tokenAt (cursor.position + n)).kind.isPrimitive = false := by
    have hkind := congrArg Word.kind (h.word_tokenAt n)
    change (cursor.tokenAt (cursor.position + n)).kind = _ at hkind
    rw [hkind]
    cases hfound : (wordsOf joint lexemes)[n]? with
    | none => rfl
    | some word => exact (h.known.plain word (List.mem_of_getElem? hfound)).2
  unfold Cursor.next
  split
  · exact hword 1
  · exact hword 0

/-- A parenthesis starts no cast: whatever type is read behind it, no operand follows. -/
theorem Cursor.Faces.delivers_castType? (hfaces : cursor.Faces size floor joint lexemes)
    (hcovers : g.Covers size (floor + 1)) (horderly : g.Orderly) :
    Delivers g.castType? (· = cursor) fun type cursor' =>
      type = none ∧ cursor'.Faces size floor joint lexemes := by
  have hback := delivers_rewind hfaces
  have htried : cursor.Tried size cursor.next :=
    Cursor.Tried.next ⟨.refl cursor, hfaces.sound, Nat.le_refl _⟩
  have hhalts := Grammar.moves_typeRef (hcovers.later hfaces.floor)
  have hposition : ∀ ⦃cursor'⦄, cursor' = cursor →
      Source.position cursor' = .ok cursor.position cursor' := by
    rintro _ rfl
    rfl
  have hbump : Delivers bump (· = cursor) fun _ => (· = cursor.next) := by
    rintro _ rfl
    exact ⟨(), _, rfl, rfl⟩
  refine .look hposition (hbump.bind fun _ => .look htried.kind_eq ?_)
  rw [hfaces.isPrimitive_next]
  refine .bind ((delivers_attempt hhalts.stays (Grammar.proceeds_typeRef horderly)).weaken
    (fun _ heq => heq ▸ htried) fun _ _ => id) fun type => ?_
  cases type with
  | none => exact hback
  | some type =>
    refine (delivers_eatTried .rParen).bind fun found => ?_
    cases found with
    | false =>
      refine hback.weaken (fun cursor' heaten => ?_) fun _ _ => id
      obtain ⟨before, hbefore, rfl⟩ := heaten
      exact hbefore
    | true =>
      rintro _ ⟨before, hbefore, hparen, rfl⟩
      have hoperand := hbefore.canStartOperand_next hfaces hparen
      refine Delivers.look hbefore.next.kind_eq ?_ rfl
      rw [hoperand, Bool.false_and, Bool.false_and, Bool.or_false, if_neg Bool.false_ne_true]
      exact hback.weaken (fun _ heq => heq ▸ hbefore.next) fun _ _ => id

/-- No cast starts in front of lexemes that fit. -/
theorem delivers_castHere? {next : Option TypeRef → Parser β} (hcovers : g.Covers size (floor + 1))
    (horderly : g.Orderly)
    (h : Delivers (next none) (Cursor.Faces size floor joint lexemes) after) :
    Delivers (g.castHere? >>= next) (Cursor.Faces size floor joint lexemes) after := by
  refine .bindEq (delivers_atKind _ ?_) h
  split
  · refine delivers_atLambda ?_
    rw [if_neg Bool.false_ne_true]
    exact fun cursor hfaces => hfaces.delivers_castType? hcovers horderly rfl
  · exact .pure fun _ hfaces => ⟨rfl, hfaces⟩

end Lookahead

/-! ### Loops -/

/-- Whether a loop comes from one state and cursor to others by steps that pass a token each. -/
inductive Steps {α β : Type} (step : α → Parser (LoopStep α β)) : α → Cursor → α → Cursor → Prop
  | refl {state : α} {cursor : Cursor} : Steps step state cursor state cursor
  | tail {state state' state'' : α} {cursor cursor' cursor'' : Cursor}
      (h : Steps step state cursor state' cursor')
      (hstep : step state' cursor' = .ok (.continue state'') cursor'')
      (hposition : cursor'.position < cursor''.position)
      (hsize : cursor''.tokens.size = cursor'.tokens.size) : Steps step state cursor state'' cursor''

section Loops

variable {α β : Type} {step : α → Parser (LoopStep α β)} {state state' : α} {cursor cursor' : Cursor}

theorem iterate_eq_of_continue (h : step state cursor = .ok (.continue state') cursor')
    (fuel : Nat) : iterate step (fuel + 1) state cursor = iterate step fuel state' cursor' := by
  change EStateM.bind (step state) _ cursor = _
  rw [EStateM.bind, h]

theorem iterate_eq_of_done {result : β} (h : step state cursor = .ok (.done result) cursor') (fuel : Nat) :
    iterate step (fuel + 1) state cursor = .ok result cursor' := by
  change EStateM.bind (step state) _ cursor = _
  rw [EStateM.bind, h]
  rfl

/-- The steps of a loop use up no more fuel than they pass tokens. -/
theorem Steps.exists_iterate (h : Steps step state cursor state' cursor') :
    cursor'.tokens.size = cursor.tokens.size ∧ ∃ count, cursor.position + count ≤ cursor'.position ∧
      ∀ fuel, iterate step (fuel + count) state cursor = iterate step fuel state' cursor' := by
  induction h with
  | refl => exact ⟨rfl, 0, Nat.le_refl _, fun _ => rfl⟩
  | tail _ hstep hposition hsize ih =>
    obtain ⟨hsame, count, hle, hiterate⟩ := ih
    refine ⟨hsize.trans hsame, count + 1, by omega, fun fuel => ?_⟩
    rw [← Nat.add_assoc, Nat.add_right_comm, hiterate, iterate_eq_of_continue hstep]

theorem Steps.loop_eq {result : β} {cursor'' : Cursor} (h : Steps step state cursor state' cursor')
    (hdone : step state' cursor' = .ok (.done result) cursor'')
    (hposition : cursor'.position < cursor'.tokens.size) :
    loop step state cursor = .ok result cursor'' := by
  obtain ⟨hsame, count, hle, hiterate⟩ := h.exists_iterate
  obtain ⟨fuel, hfuel⟩ : ∃ fuel, cursor.tokens.size = fuel + count :=
    Nat.exists_eq_add_of_le' (by omega)
  change iterate step (cursor.tokens.size + 1) state cursor = _
  rw [hfuel, Nat.add_right_comm, hiterate, iterate_eq_of_done hdone]

/-- Whether a parser and the steps of a loop after it come from every cursor that meets a condition to a state and a cursor that meet another one. -/
def Arrives (first : Parser α) (step : α → Parser (LoopStep α β)) (before : Cursor → Prop)
    (after : α → Cursor → Prop) : Prop :=
  ∀ ⦃cursor⦄, before cursor → ∃ start cursor' state cursor'', first cursor = .ok start cursor' ∧
    Steps step start cursor' state cursor'' ∧ after state cursor''

namespace Arrives

variable {first : Parser α} {before : Cursor → Prop} {after : α → Cursor → Prop} {holds holds' : α → Prop}
  {known : List Word → Prop} {size floor : Nat} {joint joint' : Bool} {lexemes lexemes' : List Lexeme}

theorem refl (h : Delivers first before after) : Arrives first step before after := by
  intro cursor hbefore
  obtain ⟨value, cursor', hok, hafter⟩ := h hbefore
  exact ⟨value, cursor', value, cursor', hok, .refl, hafter⟩

/-- One more step. -/
theorem next (h : Arrives first step before fun state cursor =>
      holds state ∧ cursor.Sees known size floor joint lexemes)
    (hstep : ∀ state floor', floor ≤ floor' → holds state →
      Delivers (step state) (Cursor.Sees known size floor' joint lexemes) fun result cursor =>
        ∃ state', result = .continue state' ∧ holds' state' ∧
          cursor.Sees known size (floor' + 1) joint' lexemes') :
    Arrives first step before fun state cursor =>
      holds' state ∧ cursor.Sees known size floor joint' lexemes' := by
  intro cursor hbefore
  obtain ⟨start, cursor₁, state, cursor₂, hfirst, hsteps, hstate, hfaces⟩ := h hbefore
  -- The step is taken from the position itself, so that it shows that a token is passed.
  have hhere : cursor₂.Sees known size cursor₂.position joint lexemes := { hfaces with floor := Nat.le_refl _ }
  obtain ⟨_, cursor₃, hok, state', rfl, hstate', hfaces'⟩ := hstep state _ hfaces.floor hstate hhere
  refine ⟨start, cursor₁, state', cursor₃, hfirst, hsteps.tail hok hfaces'.floor ?_, hstate', ?_⟩
  · rw [hfaces'.sound.count, hfaces.sound.count]
  · exact hfaces'.mono (Nat.le_succ_of_le hfaces.floor)

/-- The loop ends where no step is left to take. -/
theorem loop {after : β → Cursor → Prop} (h : Arrives first step before fun state cursor =>
      holds state ∧ cursor.Sees known size floor joint lexemes)
    (hdone : ∀ state, holds state →
      Delivers (step state) (Cursor.Sees known size floor joint lexemes) fun result cursor =>
        ∃ value, result = .done value ∧ after value cursor) :
    Delivers (first >>= Source.loop step) before after := by
  intro cursor hbefore
  obtain ⟨start, cursor₁, state, cursor₂, hfirst, hsteps, hstate, hfaces⟩ := h hbefore
  obtain ⟨_, cursor₃, hok, value, rfl, hafter⟩ := hdone state hstate hfaces
  refine ⟨value, cursor₃, ?_, hafter⟩
  change EStateM.bind first _ cursor = _
  rw [EStateM.bind, hfirst]
  exact hsteps.loop_eq hok hfaces.position_lt

end Arrives

end Loops

/-! ### Whole texts -/

theorem ScansAll.head_ne {lexemes : List Lexeme} (h : ScansAll lexemes) :
    (charsOf lexemes).head? ≠ some byteOrderMark := by
  cases lexemes with
  | nil => exact nofun
  | cons lexeme rest =>
    have hhead := head_ne_byteOrderMark h.1
    obtain ⟨c, chars, hchars, -⟩ := h.1
    rw [hchars] at hhead
    rw [charsOf_cons, hchars]
    exact hhead

/-- The tokens of lexemes that are scanned one by one are their own. -/
theorem ScansAll.tokens_eq {lexemes : List Lexeme} (h : ScansAll lexemes) :
    tokens (String.ofList (charsOf lexemes)) = .ok (Token.ofLexemes lexemes) := by
  rw [tokens, String.toList_ofList, lexemes_charsOf h h.head_ne]

/-- A cursor at the start of the tokens of lexemes has all of them in front of it. -/
theorem ScansAll.sees_start {lexemes : List Lexeme} (h : ScansAll lexemes) {holds : List Word → Prop}
    (hholds : holds (wordsOf false lexemes)) (nextId : NodeId) :
    Cursor.Sees holds (Token.ofLexemes lexemes).length 0 false lexemes
      (Cursor.start (charsOf lexemes).toArray (Token.ofLexemes lexemes) nextId) := by
  refine ⟨?_, Nat.zero_le _, map_word_ofLexemes lexemes, hholds⟩
  have hsound := sound_start h.tokens_eq nextId
  rwa [String.toList_ofList] at hsound

end AdviceMigration.Source
