import AdviceMigration.Proofs.Source.Bounds

/-!
# Parsers that get on

A parser may go back and may be repeated, and it stops all the same since every repetition passes a token. `Halts` says of a parser how far it is known to have come when it answers, a `Mark` for the start and one for each answer; from a sound cursor it answers or meets a syntax error, and leaves the cursor sound. The bound of a loop is never met, and neither is anything asked for that is not there.
-/

namespace AdviceMigration.Source

/-! ### Marks -/

/-- How far a cursor is known to have come. -/
inductive Mark where
  /-- At the token with the given index, or past it. -/
  | past (floor : Nat)
  /-- There too, and at a token of the given kind. -/
  | seeing (floor : Nat) (kind : TokenKind)

namespace Mark

/-- Whether a cursor has come as far as a mark says. -/
def Met : Mark → Cursor → Prop
  | .past floor, cursor => floor ≤ cursor.position
  | .seeing floor kind, cursor => floor ≤ cursor.position ∧ cursor.current.kind = kind

/-- The token that a mark lies at. -/
def floor : Mark → Nat
  | .past floor => floor
  | .seeing floor _ => floor

theorem Met.floor_le {mark : Mark} {cursor : Cursor} (h : mark.Met cursor) :
    mark.floor ≤ cursor.position := by
  cases mark with
  | past floor => exact h
  | seeing floor kind => exact h.1

/-- Whether a mark says all that another one does. -/
def Implies (mark mark' : Mark) : Prop := ∀ cursor, mark.Met cursor → mark'.Met cursor

theorem implies_past {mark : Mark} {floor : Nat} (h : floor ≤ mark.floor) :
    mark.Implies (.past floor) := fun _ hmet => Nat.le_trans h hmet.floor_le

/-- The mark once it is known whether a token of the given kind is next. -/
def ifAt (floor : Nat) (wanted : TokenKind) : Bool → Mark
  | true => .seeing floor wanted
  | false => .past floor

/-- The mark once it is known whether a token has been passed. -/
def ifEaten (floor : Nat) : Bool → Mark
  | true => .past (floor + 1)
  | false => .past floor

theorem ifAt_implies (floor : Nat) (wanted : TokenKind) (found : Bool) :
    (ifAt floor wanted found).Implies (.past floor) := by
  cases found <;> exact implies_past (Nat.le_refl _)

theorem seeing_implies_ifAt (floor : Nat) (kind : TokenKind) (found : Bool) :
    (seeing floor kind).Implies (ifAt floor kind found) := by
  cases found with
  | true => exact fun _ => id
  | false => exact implies_past (Nat.le_refl _)

theorem ifEaten_implies (floor : Nat) (found : Bool) :
    (ifEaten floor found).Implies (.past floor) := by
  cases found
  · exact implies_past (Nat.le_refl _)
  · exact implies_past (Nat.le_succ _)

end Mark

/-! ### The judgement -/

/-- Whether a parser answers from each sound cursor that meets a mark, or meets a syntax error there. It leaves the cursor sound, and with the mark that belongs to its answer. -/
structure Halts {α : Type} (size : Nat) (mark : Mark) (parser : Parser α) (after : α → Mark) :
    Prop where
  ok : ∀ {cursor cursor' : Cursor} {value : α}, cursor.Sound size → mark.Met cursor →
    parser cursor = .ok value cursor' → cursor'.Sound size ∧ (after value).Met cursor'
  error : ∀ {cursor cursor' : Cursor} {failure : ParseFailure}, cursor.Sound size →
    mark.Met cursor → parser cursor = .error failure cursor' →
    cursor'.Sound size ∧ ∃ error, failure = .syntaxError error

/-- Whether a parser stops, and no earlier than where it starts. -/
abbrev Stays {α : Type} (size floor : Nat) (parser : Parser α) : Prop :=
  Halts size (.past floor) parser fun _ => .past floor

/-- Whether a parser stops, and passes a token where it answers. -/
abbrev Moves {α : Type} (size floor : Nat) (parser : Parser α) : Prop :=
  Halts size (.past floor) parser fun _ => .past (floor + 1)

namespace Halts

variable {α β : Type} {size floor : Nat} {mark mark' : Mark} {after after' : α → Mark}
  {after'' : β → Mark} {parser yes no : Parser α}

theorem pure {value : α} (h : mark.Implies (after value)) :
    Halts size mark (pure value) after where
  ok := by
    intro cursor cursor' _ hsound hmet heq
    cases heq
    exact ⟨hsound, h _ hmet⟩
  error := fun _ _ heq => nomatch heq

theorem bind {next : α → Parser β} (h : Halts size mark parser after)
    (hnext : ∀ value, Halts size (after value) (next value) after'') :
    Halts size mark (parser >>= next) after'' where
  ok := by
    intro cursor cursor'' result hsound hmet heq
    change EStateM.bind parser next cursor = _ at heq
    rw [EStateM.bind] at heq
    split at heq
    next value cursor' hvalue =>
      obtain ⟨hsound', hmet'⟩ := h.ok hsound hmet hvalue
      exact (hnext value).ok hsound' hmet' heq
    next => cases heq
  error := by
    intro cursor cursor'' failure hsound hmet heq
    change EStateM.bind parser next cursor = _ at heq
    rw [EStateM.bind] at heq
    split at heq
    next value cursor' hvalue =>
      obtain ⟨hsound', hmet'⟩ := h.ok hsound hmet hvalue
      exact (hnext value).error hsound' hmet' heq
    next hfailure =>
      cases heq
      exact h.error hsound hmet hfailure

/-- A parser that starts further on, and of which less is to be known. -/
theorem weaken (h : Halts size mark parser after) (hmark : mark'.Implies mark)
    (hafter : ∀ value, (after value).Implies (after' value)) : Halts size mark' parser after' where
  ok := by
    intro cursor cursor' value hsound hmet heq
    obtain ⟨hsound', hmet'⟩ := h.ok hsound (hmark _ hmet) heq
    exact ⟨hsound', hafter value _ hmet'⟩
  error := fun hsound hmet heq => h.error hsound (hmark _ hmet) heq

/-- What is known to be next may be forgotten, and how far the cursor has come. -/
theorem of_past (h : Halts size (.past floor) parser after) (hfloor : floor ≤ mark.floor) :
    Halts size mark parser after :=
  h.weaken (Mark.implies_past hfloor) fun _ _ => id

/-- A parser that passes a token does not go back. -/
theorem stays (h : Moves size floor parser) : Stays size floor parser :=
  h.weaken (fun _ => id) fun _ => Mark.implies_past (Nat.le_succ _)

/-- What follows is run past the token the mark lies at. -/
theorem skip {next : α → Parser β} (h : Stays size floor parser)
    (hnext : ∀ value, Halts size (.past floor) (next value) after'') :
    Halts size (.past floor) (parser >>= next) after'' :=
  h.bind hnext

/-- No cursor is past the last token. -/
theorem of_size_le (h : size ≤ mark.floor) : Halts size mark parser after where
  ok := fun hsound hmet _ =>
    absurd hsound.position (Nat.not_lt_of_le (Nat.le_trans h hmet.floor_le))
  error := fun hsound hmet _ =>
    absurd hsound.position (Nat.not_lt_of_le (Nat.le_trans h hmet.floor_le))

theorem ite {condition : Prop} [Decidable condition] (hyes : condition → Halts size mark yes after)
    (hno : ¬condition → Halts size mark no after) :
    Halts size mark (if condition then yes else no) after := by
  split
  · exact hyes ‹_›
  · exact hno ‹_›

/-- Two parsers to choose from, and what follows either of them. -/
theorem branch {condition : Prop} [Decidable condition] {next : α → Parser β}
    (hyes : condition → Halts size mark yes after) (hno : ¬condition → Halts size mark no after)
    (hnext : ∀ value, Halts size (after value) (next value) after'') :
    Halts size mark (if condition then yes >>= next else no >>= next) after'' :=
  .ite (fun hcondition => .bind (hyes hcondition) hnext) fun hnot => .bind (hno hnot) hnext

/-- A part that may be missing, and what follows it. -/
theorem optional {condition : Prop} [Decidable condition] {next : Option α → Parser β}
    (h : Stays size floor yes) (hnext : ∀ value, Halts size (.past floor) (next value) after'') :
    Halts size (.past floor)
      (if condition then (do let value ← yes; Pure.pure (some value) >>= next)
        else Pure.pure none >>= next) after'' :=
  .ite (fun _ => .bind h fun value => hnext (some value)) fun _ => hnext none

theorem optionalElse {condition : Prop} [Decidable condition] {next : Option α → Parser β}
    (h : Stays size floor yes) (hnext : ∀ value, Halts size (.past floor) (next value) after'') :
    Halts size (.past floor)
      (if condition then Pure.pure none >>= next
        else (do let value ← yes; Pure.pure (some value) >>= next)) after'' :=
  .ite (fun _ => hnext none) fun _ => .bind h fun value => hnext (some value)

/-- The result of a parser in another form. -/
theorem map {f : α → β} {mark' : Mark} (h : Halts size mark parser fun _ => mark') :
    Halts size mark (do return f (← parser)) fun _ => mark' :=
  .bind h fun _ => .pure fun _ => id

/-- A parser that looks, and what is known when it answers. -/
theorem look {value : Cursor → α} (hlooks : ∀ cursor, Looks parser cursor (value cursor))
    (hsucceeds : ∀ cursor, cursor.Sound size → mark.Met cursor → Succeeds parser cursor)
    (hafter : ∀ cursor, mark.Met cursor → (after (value cursor)).Met cursor) :
    Halts size mark parser after where
  ok := by
    intro cursor cursor' result hsound hmet heq
    obtain ⟨rfl, rfl⟩ := (hlooks cursor).eq_of_ok heq
    exact ⟨hsound, hafter cursor hmet⟩
  error := by
    intro cursor cursor' failure hsound hmet heq
    obtain ⟨_, _, hok⟩ := hsucceeds cursor hsound hmet
    rw [hok] at heq
    cases heq

/-- What is read off the cursor, and what is known of it. -/
theorem get {next : Cursor → Parser α} (h : ∀ cursor, cursor.Sound size → mark.Met cursor →
    Halts size mark (next cursor) after) : Halts size mark (do next (← get)) after where
  ok := fun {cursor} _ _ hsound hmet heq => (h cursor hsound hmet).ok hsound hmet heq
  error := fun {cursor} _ _ hsound hmet heq => (h cursor hsound hmet).error hsound hmet heq

/-- A change of the cursor. -/
theorem modifyGet {change : Cursor → α × Cursor} (h : ∀ cursor, cursor.Sound size →
    mark.Met cursor → (change cursor).2.Sound size ∧ (after (change cursor).1).Met (change cursor).2) :
    Halts size mark (modifyGet change) after where
  ok := by
    intro cursor cursor' value hsound hmet heq
    cases heq
    exact h cursor hsound hmet
  error := fun _ _ heq => nomatch heq

end Halts

theorem punct_ne_eof (punct : Punct) : TokenKind.punct punct ≠ .eof := nofun

theorem keyword_ne_eof (keyword : Keyword) : TokenKind.keyword keyword ≠ .eof := nofun

/-! ### Looking -/

section Primitives

variable {α β : Type} {size floor : Nat} {mark : Mark} {after : α → Mark}

/-- A parser that knows the cursor, which stands on a token. -/
theorem halts_here {next : Cursor → Parser α} (h : ∀ cursor, mark.Met cursor →
    Halts size (.seeing mark.floor cursor.current.kind) (next cursor) after) :
    Halts size mark (do next (← here)) after where
  ok := by
    intro cursor cursor'' result hsound hmet heq
    change EStateM.bind here next cursor = _ at heq
    rw [EStateM.bind, here_eq (hsound.count ▸ hsound.position)] at heq
    exact (h cursor hmet).ok hsound ⟨hmet.floor_le, rfl⟩ heq
  error := by
    intro cursor cursor'' failure hsound hmet heq
    change EStateM.bind here next cursor = _ at heq
    rw [EStateM.bind, here_eq (hsound.count ▸ hsound.position)] at heq
    exact (h cursor hmet).error hsound ⟨hmet.floor_le, rfl⟩ heq

/-- A change of the cursor that depends on what stands there. -/
theorem halts_ofHere {next : Cursor → Parser α} (h : ∀ cursor, cursor.Sound size →
    mark.Met cursor → ∃ value cursor', next cursor cursor = .ok value cursor' ∧
      cursor'.Sound size ∧ (after value).Met cursor') :
    Halts size mark (do next (← here)) after where
  ok := by
    intro cursor cursor'' result hsound hmet heq
    obtain ⟨value, cursor', hnext, hafter⟩ := h cursor hsound hmet
    change EStateM.bind here next cursor = _ at heq
    rw [EStateM.bind, here_eq (hsound.count ▸ hsound.position)] at heq
    cases hnext.symm.trans heq
    exact hafter
  error := by
    intro cursor cursor'' failure hsound hmet heq
    obtain ⟨value, cursor', hnext, -⟩ := h cursor hsound hmet
    change EStateM.bind here next cursor = _ at heq
    rw [EStateM.bind, here_eq (hsound.count ▸ hsound.position)] at heq
    cases hnext.symm.trans heq

theorem halts_kind : Halts size (.past floor) kind (Mark.seeing floor) :=
  .look (fun _ => looks_kind) (fun _ hsound _ => succeeds_kind hsound) fun _ hmet => ⟨hmet, rfl⟩

theorem halts_peek (n : Nat) : Halts size mark (peek n) fun _ => mark :=
  .get fun _ _ _ => .pure fun _ => id

theorem halts_atKind (wanted : TokenKind) :
    Halts size (.past floor) (atKind wanted) (Mark.ifAt floor wanted) := by
  refine .look (fun _ => looks_atKind wanted) (fun _ hsound _ => succeeds_atKind hsound wanted) ?_
  intro cursor hmet
  cases hkind : cursor.current.kind == wanted with
  | true => exact ⟨hmet, beq_iff_eq.1 hkind⟩
  | false => exact hmet

theorem stays_atKind (wanted : TokenKind) : Stays size floor (atKind wanted) :=
  (halts_atKind wanted).weaken (fun _ => id) (Mark.ifAt_implies floor wanted)

/-- What is done where a token of the given kind is next, and what is done elsewhere. -/
theorem halts_ifAt {wanted : TokenKind} {yes no : Parser α}
    (hyes : Halts size (.seeing floor wanted) yes after) (hno : Halts size (.past floor) no after) :
    Halts size (.past floor) (do if ← atKind wanted then yes else no) after := by
  refine .bind (halts_atKind wanted) fun found => ?_
  cases found with
  | true => exact hyes
  | false => exact hno

/-- What is done where a token of the given kind is next, and the tokens after it pass a test. -/
theorem halts_ifAtNext {wanted : TokenKind} {n : Nat} {test : TokenKind → Bool} {yes no : Parser α}
    (hyes : Halts size (.seeing floor wanted) yes after) (hno : Halts size (.past floor) no after) :
    Halts size (.past floor)
      (do if (← atKind wanted) && test (← peek n) then yes else no) after := by
  refine .bind (halts_atKind wanted) fun found => .bind (halts_peek n) fun next => ?_
  cases found with
  | true => exact .ite (fun _ => hyes) fun _ => hno.of_past (Nat.le_refl _)
  | false => exact .ite (fun hfalse => nomatch hfalse) fun _ => hno

theorem stays_atWord (word : String) : Stays size floor (atWord word) :=
  halts_here fun _ _ => .pure (Mark.implies_past (Nat.le_refl _))

theorem halts_atBrackets :
    Halts size (.past floor) atBrackets (Mark.ifAt floor (.punct .lBracket)) := by
  refine .bind (halts_atKind _) fun found => .bind (halts_peek 1) fun next => .pure ?_
  cases found with
  | true => exact Mark.seeing_implies_ifAt _ _ _
  | false => exact fun _ => id

/-- A parser that knows where it starts, which is at a token. -/
theorem halts_position {next : Nat → Parser α}
    (h : ∀ start, floor ≤ start → start < size → Halts size (.past start) (next start) after) :
    Halts size (.past floor) (do next (← position)) after where
  ok := fun {cursor} _ _ hsound hmet heq =>
    (h cursor.position hmet hsound.position).ok hsound (Nat.le_refl _) heq
  error := fun {cursor} _ _ hsound hmet heq =>
    (h cursor.position hmet hsound.position).error hsound (Nat.le_refl _) heq

/-- A parser that passes a token from wherever it starts. -/
theorem moves_position {next : Nat → Parser α}
    (h : ∀ start, floor ≤ start → start < size → Moves size start (next start)) :
    Moves size floor (do next (← position)) :=
  halts_position fun start hstart hsize => (h start hstart hsize).weaken (fun _ => id) fun _ =>
    Mark.implies_past (Nat.succ_le_succ hstart)

/-! ### Moving -/

theorem stays_bump : Stays size floor bump := by
  refine .modifyGet fun cursor hsound hmet => ?_
  dsimp only
  split
  next hlt => exact ⟨hsound.move rfl rfl rfl (hsound.count ▸ hlt), Nat.le_succ_of_le hmet⟩
  next => exact ⟨hsound, hmet⟩

/-- A token that is not the end of the text is passed. -/
theorem halts_bump {kind : TokenKind} (hkind : kind ≠ .eof) :
    Halts size (.seeing floor kind) bump fun _ => .past (floor + 1) := by
  refine .modifyGet fun cursor hsound hmet => ?_
  have hlt : cursor.position + 1 < size := hsound.next _ (by
    rw [← Cursor.current, hmet.2]
    exact hkind)
  dsimp only
  rw [if_pos (hsound.count ▸ hlt)]
  exact ⟨hsound.move rfl rfl rfl hlt, Nat.succ_le_succ hmet.1⟩

theorem stays_bumpTimes (n : Nat) : Stays size floor (bumpTimes n) := by
  induction n with
  | zero => exact .pure fun _ => id
  | succ n ih => exact .skip stays_bump fun _ => ih

theorem halts_bumpTimes {kind : TokenKind} (hkind : kind ≠ .eof) {n : Nat} (hn : 0 < n) :
    Halts size (.seeing floor kind) (bumpTimes n) fun _ => .past (floor + 1) := by
  obtain ⟨n, rfl⟩ := Nat.exists_eq_succ_of_ne_zero (Nat.pos_iff_ne_zero.1 hn)
  exact .bind (halts_bump hkind) fun _ => stays_bumpTimes n

theorem halts_bumpText {kind : TokenKind} (hkind : kind ≠ .eof) :
    Halts size (.seeing floor kind) bumpText fun _ => .past (floor + 1) := by
  refine halts_here fun cursor hmet => ?_
  rw [hmet.2]
  exact .bind (halts_bump hkind) fun _ => .pure fun _ => id

theorem stays_bumpText : Stays size floor bumpText :=
  halts_here fun _ _ => .bind (stays_bump.of_past (Nat.le_refl _)) fun _ => .pure fun _ => id

/-- Passing a token, where one of the given kind is next. -/
theorem halts_eat {wanted : TokenKind} (hwanted : wanted ≠ .eof) :
    Halts size (.past floor) (eat wanted) (Mark.ifEaten floor) :=
  halts_ifAt (.bind (halts_bump hwanted) fun _ => .pure fun _ => id) (.pure fun _ => id)

theorem stays_eat {wanted : TokenKind} (hwanted : wanted ≠ .eof) : Stays size floor (eat wanted) :=
  (halts_eat hwanted).weaken (fun _ => id) (Mark.ifEaten_implies floor)

/-- What is done once a token of the given kind has been passed, and what is done elsewhere. -/
theorem halts_ifEat {wanted : TokenKind} (hwanted : wanted ≠ .eof) {yes no : Parser α}
    (hyes : Halts size (.past (floor + 1)) yes after) (hno : Halts size (.past floor) no after) :
    Halts size (.past floor) (do if ← eat wanted then yes else no) after := by
  refine .bind (halts_eat hwanted) fun found => ?_
  cases found with
  | true => exact hyes
  | false => exact hno

theorem halts_complain (wanted : String) :
    Halts size (.past floor) (complain wanted : Parser α) after :=
  halts_here fun _ _ => ⟨fun _ _ heq => (nomatch heq), fun hsound _ heq => by
    cases heq
    exact ⟨hsound, _, rfl⟩⟩

theorem moves_expect {wanted : TokenKind} (hwanted : wanted ≠ .eof) (message : String) :
    Moves size floor (expect wanted message) :=
  halts_ifEat hwanted (.pure fun _ => id) (halts_complain message)

theorem moves_expectPunct (punct : Punct) (message : String) :
    Moves size floor (expectPunct punct message) := moves_expect (punct_ne_eof punct) message

theorem moves_expectIdent (message : String) : Moves size floor (expectIdent message) :=
  halts_ifAt (halts_bumpText nofun) (halts_complain message)

theorem stays_freshId : Stays size floor freshId :=
  .modifyGet fun _ hsound hmet => ⟨hsound.move rfl rfl rfl hsound.position, hmet⟩

/-! ### Comments and captured text -/

theorem stays_takeComments : Stays size floor takeComments :=
  halts_ofHere fun _ hsound hmet =>
    ⟨_, _, rfl, hsound.takeLeading (List.nil_subset _) hsound.trailing, hmet⟩

/-- A comment that shares the line of a token lies behind that token. -/
theorem stays_takeTrailing : Stays size (floor + 1) takeTrailing := by
  refine halts_ofHere fun cursor hsound hmet => ?_
  cases hleading : cursor.current.leading with
  | nil => exact ⟨_, _, rfl, hsound, hmet⟩
  | cons first rest =>
    dsimp only
    split
    · exact ⟨_, _, rfl, hsound, hmet⟩
    · refine ⟨_, _, rfl, hsound.takeLeading ?_ ?_, hmet⟩
      · rw [hleading]
        exact List.subset_cons_self _ _
      · rintro index stop ⟨rfl, rfl⟩
        have hpos : cursor.position - 1 + 1 = cursor.position :=
          Nat.sub_add_cancel (Nat.le_trans (Nat.le_add_left 1 floor) hmet)
        have hremarked := hsound.leading (cursor.position - 1) (hpos ▸ hsound.position)
        rw [hpos] at hremarked
        exact hremarked first (by rw [← Cursor.current, hleading]; exact List.mem_cons_self)

theorem stays_trivia {index : Nat} (hindex : index < size) (comments : List Comment)
    (blankLineBefore : Bool) : Stays size floor (trivia index comments blankLineBefore) :=
  .look (fun _ => looks_trivia index comments blankLineBefore)
    (fun _ hsound _ => succeeds_trivia hsound hindex comments blankLineBefore) fun _ => id

theorem stays_takeLayout : Stays size floor takeLayout := by
  refine .skip stays_takeComments fun (comments, blank) => ?_
  refine halts_position fun start hstart hsize => ?_
  exact .skip (stays_trivia hsize comments blank) fun _ => .pure (Mark.implies_past hstart)

theorem stays_takeClosing : Stays size floor takeClosing := by
  refine .skip stays_takeComments fun (comments, _) => ?_
  refine halts_position fun start hstart hsize => ?_
  refine .skip ?_ fun _ => .pure (Mark.implies_past hstart)
  exact .look (fun _ => looks_closingTrivia start comments)
    (fun _ hsound _ => succeeds_closingTrivia hsound hsize comments) fun _ => id

/-- The text of a node is captured once its first token has been passed. -/
theorem stays_captureFrom {start : Nat} (hstart : start < floor) (canonical : String) :
    Stays size floor (captureFrom start canonical) :=
  .look (fun _ => looks_captureFrom start canonical) (fun _ hsound hmet =>
    succeeds_captureFrom hsound (Nat.lt_of_lt_of_le hstart hmet) canonical) fun _ => id

/-! ### Trying, and repeating -/

/-- A parser that is tried keeps the cursor sound wherever it stops. -/
theorem halts_attempt {parser : Parser α} (h : Halts size mark parser after) :
    Halts size mark (attempt parser) fun result => result.elim (.past 0) after where
  ok := by
    intro cursor cursor' result hsound hmet heq
    rw [attempt] at heq
    split at heq
    next value hvalue =>
      cases heq
      exact h.ok hsound hmet hvalue
    next failure hfailure =>
      cases heq
      exact ⟨(h.error hsound hmet hfailure).1, Nat.zero_le _⟩
    next => cases heq
  error := by
    intro cursor cursor' failure hsound hmet heq
    rw [attempt] at heq
    split at heq
    next => cases heq
    next => cases heq
    next hfailure =>
      cases heq
      exact h.error hsound hmet hfailure

theorem halts_rewind {position : Nat} (hposition : position < size) :
    Halts size mark (rewind position) fun _ => .past position :=
  .modifyGet fun _ hsound _ => ⟨hsound.move rfl rfl rfl hposition, Nat.le_refl _⟩

theorem Mark.met_noLambda {mark : Mark} {cursor : Cursor} (h : mark.Met cursor) (noLambda : Bool) :
    mark.Met { cursor with noLambda := noLambda } := by
  cases mark <;> exact h

theorem halts_withNoLambda {parser : Parser α} (noLambda : Bool)
    (h : Halts size mark parser after) : Halts size mark (withNoLambda noLambda parser) after where
  ok := by
    intro cursor cursor' value hsound hmet heq
    have hsound' : Cursor.Sound size { cursor with noLambda := noLambda } :=
      hsound.move rfl rfl rfl hsound.position
    rw [withNoLambda] at heq
    split at heq
    next cursor' hvalue =>
      cases heq
      obtain ⟨hinner, hafter⟩ := h.ok hsound' (Mark.met_noLambda hmet noLambda) hvalue
      exact ⟨hinner.move rfl rfl rfl hinner.position, Mark.met_noLambda hafter cursor.noLambda⟩
    next => cases heq
  error := by
    intro cursor cursor' failure hsound hmet heq
    have hsound' : Cursor.Sound size { cursor with noLambda := noLambda } :=
      hsound.move rfl rfl rfl hsound.position
    rw [withNoLambda] at heq
    split at heq
    next => cases heq
    next cursor' hfailure =>
      cases heq
      obtain ⟨hinner, herror⟩ := h.error hsound' (Mark.met_noLambda hmet noLambda) hfailure
      exact ⟨hinner.move rfl rfl rfl hinner.position, herror⟩

/-- The marks of what a step of a loop decides. -/
def LoopStep.known {α β : Type} (onward : α → Mark) (after : β → Mark) : LoopStep α β → Mark
  | .continue state => onward state
  | .done result => after result

/-- A loop stops before its bound is met, since there are no more steps than tokens. The state may tell that even more tokens have been passed. -/
theorem halts_iterate {step : α → Parser (LoopStep α β)} {least : α → Nat} {after : β → Mark}
    (h : ∀ state floor, least state ≤ floor → Halts size (.past floor) (step state)
      (LoopStep.known (fun state => .past (max (floor + 1) (least state))) after))
    (fuel : Nat) {floor : Nat} (hfuel : size < floor + fuel) {state : α} (hstate : least state ≤ floor) :
    Halts size (.past floor) (iterate step fuel state) after := by
  induction fuel generalizing floor state with
  | zero => exact .of_size_le (Nat.le_of_lt hfuel)
  | succ fuel ih =>
    refine .bind (h state floor hstate) fun result => ?_
    cases result with
    | done result => exact .pure fun _ => id
    | «continue» state =>
      have hmax : floor + 1 ≤ max (floor + 1) (least state) := Nat.le_max_left _ _
      exact ih (by omega) (Nat.le_max_right _ _)

/-- A loop whose state tells how many tokens have been passed. -/
theorem halts_loopFrom {step : α → Parser (LoopStep α β)} (least : α → Nat) {after : β → Mark}
    (h : ∀ state floor, least state ≤ floor → Halts size (.past floor) (step state)
      (LoopStep.known (fun state => .past (max (floor + 1) (least state))) after))
    {state : α} (hstate : least state ≤ floor) :
    Halts size (.past floor) (loop step state) after := by
  refine .get fun cursor hsound _ => ?_
  exact halts_iterate h _ (by rw [hsound.count]; omega) hstate

/-- A loop that passes a token with each step but the last. -/
theorem halts_loop {step : α → Parser (LoopStep α β)} {after : β → Mark}
    (h : ∀ state floor', floor ≤ floor' → Halts size (.past floor') (step state)
      (LoopStep.known (fun _ => .past (floor' + 1)) after)) (state : α) :
    Halts size (.past floor) (loop step state) after := by
  refine halts_loopFrom (fun _ => floor) (fun state floor' hle => ?_) (Nat.le_refl floor)
  refine (h state floor' hle).weaken (fun _ => id) fun result => ?_
  cases result with
  | done result => exact fun _ => id
  | «continue» state =>
    exact Mark.implies_past (Nat.max_le.2 ⟨Nat.le_refl _, Nat.le_succ_of_le hle⟩)

/-- Items of which each passes a token, for as long as a condition holds. -/
theorem stays_manyWhile {condition : Parser Bool} {item : Parser α}
    (hcondition : ∀ {floor}, Stays size floor condition)
    (hitem : ∀ floor', floor ≤ floor' → Moves size floor' item) :
    Stays size floor (manyWhile condition item) := by
  refine halts_loop (fun items floor' hle => .skip hcondition fun again => ?_) []
  refine .ite (fun _ => .bind (hitem floor' hle) fun value => ?_) fun _ => ?_
  · exact .pure fun _ => id
  · exact .pure (Mark.implies_past hle)

/-- Items behind a token each, for as long as there is such a token. -/
theorem stays_manyWhile_eat {wanted : TokenKind} (hwanted : wanted ≠ .eof) {item : Parser α}
    (hitem : ∀ floor', floor < floor' → Stays size floor' item) :
    Stays size floor (manyWhile (eat wanted) item) := by
  refine halts_loop (fun items floor' hle => halts_ifEat hwanted ?_ ?_) []
  · exact .bind (hitem _ (Nat.lt_succ_of_le hle)) fun value => .pure fun _ => id
  · exact .pure (Mark.implies_past hle)

theorem moves_separatedBy {separator : Punct} {item : Parser α}
    (hitem : ∀ floor', floor ≤ floor' → Moves size floor' item) :
    Moves size floor (separatedBy separator item) := by
  refine halts_loop (fun items floor' hle => .bind (hitem floor' hle) fun value => ?_) []
  refine .skip (stays_eat (punct_ne_eof _)) fun again => .ite (fun _ => ?_) fun _ => ?_
  · exact .pure fun _ => id
  · exact .pure (Mark.implies_past (Nat.succ_le_succ hle))

theorem stays_listUntil {closing : Punct} {item : Parser α}
    (hitem : ∀ floor', floor ≤ floor' → Moves size floor' item) :
    Stays size floor (listUntil closing item) := by
  refine halts_loop (fun items floor' hle => .skip (stays_atKind _) fun ended => ?_) []
  refine .ite (fun _ => .pure (Mark.implies_past hle)) fun _ => ?_
  refine .bind (hitem floor' hle) fun value => ?_
  refine .skip (stays_eat (punct_ne_eof _)) fun again => .ite (fun _ => ?_) fun _ => ?_
  · exact .pure fun _ => id
  · exact .pure (Mark.implies_past (Nat.le_succ_of_le hle))

end Primitives

end AdviceMigration.Source
