import AdviceMigration.Proofs.Source.Captures
import Mathlib.Data.List.Nodup

/-!
# What a parser does to the cursor

A parser leaves the text and the tokens alone, comments apart: those it takes leave their token. It ends no earlier than where it started, even where it goes back in between, and it draws identities from the supply, each of which is used once. `Reads` says all this of a parser, whether it succeeds or not, and is closed under sequence and repetition, so that a production is settled by those it is made of.
-/

namespace AdviceMigration.Source

open AdviceMigration.Text

/-! ### Cursors that go on -/

/-- A token without its comments. -/
def Token.bare (token : Token) : Token := { token with leading := [] }

/-- Whether the first comment that is left in front of a token shares a line with what stands in front of it. -/
def Cursor.SharesLine (cursor : Cursor) (index : Nat) : Prop :=
  ∃ first ∈ (cursor.tokenAt index).leading.head?, first.newlineBefore = false

/-- Whether a cursor is one from which a parser can come to another: the text and the bare tokens are the same, and a comment that was taken as a trailing one shared the line. -/
structure Cursor.Onward (cursor cursor' : Cursor) : Prop where
  source : cursor'.source = cursor.source
  size : cursor'.tokens.size = cursor.tokens.size
  bare : ∀ index, (cursor'.tokenAt index).bare = (cursor.tokenAt index).bare
  shares : ∀ index, cursor'.SharesLine index → cursor.SharesLine index
  trailing : ∀ index stop, cursor'.trailingEnd = some (index, stop) →
    cursor.trailingEnd = some (index, stop) ∨ cursor.SharesLine index
  nextId : cursor.nextId ≤ cursor'.nextId

namespace Cursor.Onward

variable {cursor cursor' cursor'' : Cursor}

theorem refl (cursor : Cursor) : cursor.Onward cursor :=
  ⟨rfl, rfl, fun _ => rfl, fun _ h => h, fun _ _ h => .inl h, Nat.le_refl _⟩

theorem trans (h : cursor.Onward cursor') (h' : cursor'.Onward cursor'') :
    cursor.Onward cursor'' where
  source := h'.source.trans h.source
  size := h'.size.trans h.size
  bare := fun index => (h'.bare index).trans (h.bare index)
  shares := fun index hshares => h.shares index (h'.shares index hshares)
  trailing := by
    intro index stop htrailing
    rcases h'.trailing index stop htrailing with htrailing | hshares
    · exact h.trailing index stop htrailing
    · exact .inr (h.shares index hshares)
  nextId := Nat.le_trans h.nextId h'.nextId

/-- Only the position and the identities have changed. -/
theorem of_eq (hsource : cursor'.source = cursor.source) (htokens : cursor'.tokens = cursor.tokens)
    (htrailing : cursor'.trailingEnd = cursor.trailingEnd) (hnextId : cursor.nextId ≤ cursor'.nextId) :
    cursor.Onward cursor' := by
  refine ⟨hsource, by rw [htokens], fun index => by rw [tokenAt, tokenAt, htokens], ?_, ?_, hnextId⟩
  · intro index
    rw [SharesLine, SharesLine, tokenAt, tokenAt, htokens]
    exact id
  · rw [htrailing]
    exact fun _ _ => .inl

end Cursor.Onward

/-- Whether lambda expressions are allowed is no matter. -/
theorem Cursor.Onward.of_noLambda (cursor : Cursor) (noLambda : Bool) :
    cursor.Onward { cursor with noLambda := noLambda } :=
  .of_eq rfl rfl rfl (Nat.le_refl _)

/-- The token at the position of a cursor with other comments. -/
theorem Cursor.tokenAt_modify (cursor : Cursor) (position : Nat) (change : Token → Token)
    (index : Nat) :
    ({ cursor with tokens := cursor.tokens.modify position change } : Cursor).tokenAt index =
      if position = index ∧ index < cursor.tokens.size then change (cursor.tokenAt index)
      else cursor.tokenAt index := by
  simp only [tokenAt, Array.getD_eq_getD_getElem?, Array.getElem?_modify]
  by_cases hindex : index < cursor.tokens.size <;> by_cases hposition : position = index <;>
    simp [hindex, hposition]

/-! ### Identities that are drawn -/

/-- Whether identities have been drawn from the supply, each of them once, up to the next one. -/
structure Issued (ids : List NodeId) (next : NodeId) : Prop where
  nodup : ids.Nodup
  below : ∀ id ∈ ids, id < next

theorem Issued.nil (next : NodeId) : Issued [] next := ⟨List.nodup_nil, List.forall_mem_nil _⟩

theorem Issued.perm {ids ids' : List NodeId} {next : NodeId} (h : Issued ids next)
    (hperm : ids'.Perm ids) : Issued ids' next :=
  ⟨hperm.nodup_iff.2 h.nodup, fun id hid => h.below id (hperm.subset hid)⟩

/-- Whether identities are among those held before, and the ones drawn from `first` to `next`. -/
structure Drawn (held : List NodeId) (first : NodeId) (ids : List NodeId) (next : NodeId) : Prop where
  issued : Issued ids next
  new : ∀ id ∈ ids, id ∈ held ∨ first ≤ id

theorem Drawn.append {held ids : List NodeId} {first next : NodeId} (hheld : Issued held first)
    (h : Drawn [] first ids next) (hle : first ≤ next) : Drawn held first (held ++ ids) next := by
  have hnew : ∀ id ∈ ids, first ≤ id := fun id hid =>
    (h.new id hid).resolve_left List.not_mem_nil
  refine ⟨⟨?_, ?_⟩, ?_⟩
  · refine List.nodup_append.2 ⟨hheld.nodup, h.issued.nodup, ?_⟩
    rintro id hid other hother rfl
    exact Nat.not_lt_of_le (hnew id hother) (hheld.below id hid)
  · exact List.forall_mem_append.2 ⟨fun id hid => Nat.lt_of_lt_of_le (hheld.below id hid) hle,
      h.issued.below⟩
  · exact List.forall_mem_append.2 ⟨fun id hid => .inl hid, fun id hid => .inr (hnew id hid)⟩

/-! ### Parsers -/

/-- Whether a parser goes on from a cursor at or after `floor` and ends there too. Its result has the identities in `held`, or those drawn since, each of them once. -/
structure Reads {α : Type} (floor : Nat) (held : List NodeId) (parser : Parser α)
    (ids : α → List NodeId) : Prop where
  ok : ∀ {cursor cursor' : Cursor} {value : α}, floor ≤ cursor.position →
    parser cursor = .ok value cursor' → cursor.Onward cursor' ∧ floor ≤ cursor'.position ∧
      (Issued held cursor.nextId → Drawn held cursor.nextId (ids value) cursor'.nextId)
  error : ∀ {cursor cursor' : Cursor} {failure : ParseFailure}, floor ≤ cursor.position →
    parser cursor = .error failure cursor' → cursor.Onward cursor' ∧ floor ≤ cursor'.position

/-- Whether a parser goes on, its result having no identities that count. -/
abbrev Proceeds {α : Type} (floor : Nat) (parser : Parser α) : Prop :=
  Reads floor [] parser fun _ => []

namespace Reads

variable {α β : Type} {floor : Nat} {held : List NodeId} {ids : α → List NodeId}
  {ids' : β → List NodeId} {parser : Parser α}

theorem pure {value : α} (h : (ids value).Perm held) : Reads floor held (pure value) ids where
  ok := by
    intro cursor cursor' _ hfloor heq
    cases heq
    exact ⟨.refl cursor, hfloor, fun hheld => ⟨hheld.perm h, fun id hid => .inl (h.subset hid)⟩⟩
  error := fun _ heq => nomatch heq

theorem throw (failure : ParseFailure) : Reads floor held (throw failure : Parser α) ids where
  ok := fun _ heq => nomatch heq
  error := by
    intro cursor cursor' _ hfloor heq
    cases heq
    exact ⟨.refl cursor, hfloor⟩

/-- One parser after another. -/
theorem andThen {next : α → Parser β} (h : Reads floor held parser ids)
    (hnext : ∀ value, Reads floor (ids value) (next value) ids') :
    Reads floor held (parser >>= next) ids' where
  ok := by
    intro cursor cursor'' result hfloor heq
    change EStateM.bind parser next cursor = _ at heq
    rw [EStateM.bind] at heq
    split at heq
    next value cursor' hvalue =>
      obtain ⟨honward, hfloor', hdrawn⟩ := h.ok hfloor hvalue
      obtain ⟨honward', hfloor'', hdrawn'⟩ := (hnext value).ok hfloor' heq
      refine ⟨honward.trans honward', hfloor'', fun hheld => ⟨(hdrawn' (hdrawn hheld).issued).issued,
        fun id hid => ?_⟩⟩
      rcases (hdrawn' (hdrawn hheld).issued).new id hid with hid | hle
      · exact (hdrawn hheld).new id hid
      · exact .inr (Nat.le_trans honward.nextId hle)
    next => cases heq
  error := by
    intro cursor cursor'' failure hfloor heq
    change EStateM.bind parser next cursor = _ at heq
    rw [EStateM.bind] at heq
    split at heq
    next value cursor' hvalue =>
      obtain ⟨honward, hfloor', -⟩ := h.ok hfloor hvalue
      obtain ⟨honward', hfloor''⟩ := (hnext value).error hfloor' heq
      exact ⟨honward.trans honward', hfloor''⟩
    next failure cursor' hfailure =>
      cases heq
      exact h.error hfloor hfailure

/-- What is held stays held. -/
theorem frame (h : Reads floor [] parser ids) (held : List NodeId) :
    Reads floor held parser fun value => held ++ ids value where
  ok := by
    intro cursor cursor' value hfloor heq
    obtain ⟨honward, hfloor', hdrawn⟩ := h.ok hfloor heq
    exact ⟨honward, hfloor', fun hheld => .append hheld (hdrawn (.nil _)) honward.nextId⟩
  error := h.error

/-- One parser after another that holds on to its result. -/
theorem bind {next : α → Parser β} (h : Reads floor [] parser ids)
    (hnext : ∀ value, Reads floor (held ++ ids value) (next value) ids') :
    Reads floor held (parser >>= next) ids' :=
  (h.frame held).andThen hnext

/-- One parser after another whose result has no identities. -/
theorem skip {next : α → Parser β} (h : Proceeds floor parser)
    (hnext : ∀ value, Reads floor held (next value) ids') :
    Reads floor held (parser >>= next) ids' :=
  h.bind fun value => (List.append_nil held).symm ▸ hnext value

/-- Not all of what is held need be used. -/
theorem narrow {held' : List NodeId} (h : Reads floor held' parser ids)
    (hsub : held'.Sublist held) : Reads floor held parser ids where
  ok := by
    intro cursor cursor' value hfloor heq
    obtain ⟨honward, hfloor', hdrawn⟩ := h.ok hfloor heq
    refine ⟨honward, hfloor', fun hheld => ?_⟩
    obtain ⟨hissued, hnew⟩ :=
      hdrawn ⟨hheld.nodup.sublist hsub, fun id hid => hheld.below id (hsub.subset hid)⟩
    exact ⟨hissued, fun id hid => (hnew id hid).imp_left fun hid => hsub.subset hid⟩
  error := h.error

theorem congr {ids' : α → List NodeId} (h : Reads floor held parser ids)
    (hperm : ∀ value, (ids' value).Perm (ids value)) : Reads floor held parser ids' where
  ok := by
    intro cursor cursor' value hfloor heq
    obtain ⟨honward, hfloor', hdrawn⟩ := h.ok hfloor heq
    exact ⟨honward, hfloor', fun hheld => ⟨(hdrawn hheld).issued.perm (hperm value),
      fun id hid => (hdrawn hheld).new id ((hperm value).subset hid)⟩⟩
  error := h.error

/-- The identities of a result need not count. -/
theorem proceeds (h : Reads floor [] parser ids) : Proceeds floor parser where
  ok := by
    intro cursor cursor' value hfloor heq
    obtain ⟨honward, hfloor', -⟩ := h.ok hfloor heq
    exact ⟨honward, hfloor', fun _ => ⟨.nil _, List.forall_mem_nil _⟩⟩
  error := h.error

/-- A parser that reads the state and goes on from it. -/
theorem get {next : Cursor → Parser α}
    (h : ∀ cursor, floor ≤ cursor.position → Reads floor held (next cursor) ids) :
    Reads floor held (do next (← get)) ids where
  ok := fun {cursor _ _} hfloor heq => (h cursor hfloor).ok hfloor heq
  error := fun {cursor _ _} hfloor heq => (h cursor hfloor).error hfloor heq

/-- A change of the cursor. -/
theorem modifyGet {change : Cursor → α × Cursor}
    (h : ∀ cursor, floor ≤ cursor.position → cursor.Onward (change cursor).2 ∧
      floor ≤ (change cursor).2.position) : Proceeds floor (modifyGet change : Parser α) where
  ok := by
    intro cursor cursor' value hfloor heq
    cases heq
    obtain ⟨honward, hfloor'⟩ := h cursor hfloor
    exact ⟨honward, hfloor', fun _ => ⟨.nil _, List.forall_mem_nil _⟩⟩
  error := fun _ heq => nomatch heq

/-- A parser that only looks. -/
theorem of_looks {value : Cursor → α} (h : ∀ cursor, Looks parser cursor (value cursor)) :
    Proceeds floor parser where
  ok := by
    intro cursor cursor' result hfloor heq
    obtain ⟨-, rfl⟩ := (h cursor).eq_of_ok heq
    exact ⟨.refl cursor, hfloor, fun _ => ⟨.nil _, List.forall_mem_nil _⟩⟩
  error := by
    intro cursor cursor' failure hfloor heq
    rcases h cursor with hok | ⟨failure', herror⟩
    · rw [hok] at heq
      cases heq
    · rw [herror] at heq
      cases heq
      exact ⟨.refl cursor, hfloor⟩

/-- A change of the cursor that depends on what stands there. -/
theorem ofHere {next : Cursor → Parser α} (h : ∀ cursor, floor ≤ cursor.position →
    ∃ value cursor', next cursor cursor = .ok value cursor' ∧ cursor.Onward cursor' ∧
      floor ≤ cursor'.position) : Proceeds floor (do next (← here)) := by
  have hrun (cursor : Cursor) : (do next (← here)) cursor = next cursor cursor ∨
      ∃ failure, (do next (← here)) cursor = .error failure cursor := by
    rcases @looks_here cursor with hok | ⟨failure, herror⟩
    · exact .inl (by change EStateM.bind here next cursor = _; rw [EStateM.bind, hok])
    · exact .inr ⟨failure, by change EStateM.bind here next cursor = _; rw [EStateM.bind, herror]⟩
  constructor
  · intro cursor cursor'' result hfloor heq
    obtain ⟨value, cursor', hnext, honward, hfloor'⟩ := h cursor hfloor
    rcases hrun cursor with hok | ⟨failure, herror⟩
    · rw [hok, hnext] at heq
      cases heq
      exact ⟨honward, hfloor', fun _ => ⟨.nil _, List.forall_mem_nil _⟩⟩
    · rw [herror] at heq
      cases heq
  · intro cursor cursor'' failure hfloor heq
    obtain ⟨value, cursor', hnext, -⟩ := h cursor hfloor
    rcases hrun cursor with hok | ⟨failure', herror⟩
    · rw [hok, hnext] at heq
      cases heq
    · rw [herror] at heq
      cases heq
      exact ⟨.refl cursor, hfloor⟩

end Reads

/-! ### Looking and moving -/

/-- The identities of what a step of a loop decides. -/
def LoopStep.ids {α β : Type} (held : α → List NodeId) (ids : β → List NodeId) : LoopStep α β → List NodeId
  | .continue state => held state
  | .done result => ids result

/-- The identities of items of which the last one comes first. -/
abbrev reversedIds {α : Type} (ids : α → List NodeId) (items : List α) : List NodeId :=
  items.reverse.flatMap ids

section Steps

variable {α β : Type} {floor : Nat} {held : List NodeId} {ids : α → List NodeId}

theorem proceeds_here : Proceeds floor here := .of_looks fun _ => looks_here

theorem proceeds_kind : Proceeds floor kind := .of_looks fun _ => looks_kind

theorem proceeds_peek (n : Nat) : Proceeds floor (peek n) := .get fun _ _ => .pure .nil

theorem proceeds_atKind (wanted : TokenKind) : Proceeds floor (atKind wanted) :=
  .of_looks fun _ => looks_atKind wanted

theorem proceeds_atPunct (punct : Punct) : Proceeds floor (atPunct punct) := proceeds_atKind _

theorem proceeds_atKeyword (keyword : Keyword) : Proceeds floor (atKeyword keyword) :=
  proceeds_atKind _

theorem proceeds_atIdent : Proceeds floor atIdent := proceeds_atKind _

theorem proceeds_atWord (word : String) : Proceeds floor (atWord word) :=
  .skip proceeds_here fun _ => .pure .nil

theorem proceeds_atBrackets : Proceeds floor atBrackets := by
  refine .skip (proceeds_atPunct _) fun here => ?_
  cases here with
  | false => exact .pure .nil
  | true => exact .skip (proceeds_peek 1) fun _ => .pure .nil

/-- A parser that knows where it starts. -/
theorem reads_position {next : Nat → Parser α}
    (h : ∀ start, floor ≤ start → Reads floor held (next start) ids) :
    Reads floor held (do next (← position)) ids :=
  Reads.get fun cursor hfloor => h cursor.position hfloor

theorem proceeds_bump : Proceeds floor bump := by
  refine .modifyGet fun cursor hfloor => ?_
  dsimp only
  split
  · exact ⟨.of_eq rfl rfl rfl (Nat.le_refl _), Nat.le_succ_of_le hfloor⟩
  · exact ⟨.refl cursor, hfloor⟩

theorem proceeds_bumpTimes (n : Nat) : Proceeds floor (bumpTimes n) := by
  induction n with
  | zero => exact .pure .nil
  | succ n ih => exact .skip proceeds_bump fun _ => ih

theorem proceeds_bumpText : Proceeds floor bumpText :=
  .skip proceeds_here fun _ => .skip proceeds_bump fun _ => .pure .nil

theorem proceeds_eat (wanted : TokenKind) : Proceeds floor (eat wanted) := by
  refine .skip (proceeds_atKind wanted) fun here => ?_
  cases here with
  | false => exact .pure .nil
  | true => exact .skip proceeds_bump fun _ => .pure .nil

theorem proceeds_eatPunct (punct : Punct) : Proceeds floor (eatPunct punct) := proceeds_eat _

theorem proceeds_eatKeyword (keyword : Keyword) : Proceeds floor (eatKeyword keyword) :=
  proceeds_eat _

theorem reads_complain (wanted : String) : Reads floor held (complain wanted : Parser α) ids :=
  .skip proceeds_here fun _ => .throw _

theorem proceeds_expect (wanted : TokenKind) (message : String) :
    Proceeds floor (expect wanted message) := by
  refine .skip (proceeds_eat wanted) fun here => ?_
  cases here with
  | false => exact reads_complain message
  | true => exact .pure .nil

theorem proceeds_expectPunct (punct : Punct) (message : String) :
    Proceeds floor (expectPunct punct message) := proceeds_expect _ message

theorem proceeds_expectIdent (message : String) : Proceeds floor (expectIdent message) := by
  refine .skip proceeds_atIdent fun here => ?_
  cases here with
  | false => exact reads_complain message
  | true => exact proceeds_bumpText

theorem reads_freshId : Reads floor [] freshId fun id => [id] where
  ok := by
    intro cursor cursor' value hfloor heq
    cases heq
    refine ⟨.of_eq rfl rfl rfl (Nat.le_succ _), hfloor, fun _ => ⟨⟨List.nodup_singleton _, ?_⟩, ?_⟩⟩
    · simp
    · simp
  error := fun _ heq => nomatch heq

/-! ### Comments and captured text -/

/-- Comments that leave the current token. -/
theorem Cursor.Onward.of_leading {cursor : Cursor} {leading : List LeadingComment}
    {trailingEnd : Option (Nat × Nat)}
    (hshares : (∃ first ∈ leading.head?, first.newlineBefore = false) →
      cursor.SharesLine cursor.position)
    (htrailing : ∀ index stop, trailingEnd = some (index, stop) →
      cursor.trailingEnd = some (index, stop) ∨ cursor.SharesLine index) :
    cursor.Onward { cursor with
      trailingEnd := trailingEnd
      tokens := cursor.tokens.modify cursor.position fun token =>
        { token with leading := leading } } where
  source := rfl
  size := Array.size_modify
  bare := by
    intro index
    refine (congrArg Token.bare (cursor.tokenAt_modify _ _ index)).trans ?_
    split <;> rfl
  shares := by
    intro index hindex
    have htoken := cursor.tokenAt_modify cursor.position
      (fun token => { token with leading := leading }) index
    unfold SharesLine at hindex
    erw [htoken] at hindex
    split at hindex
    next hposition => exact hposition.1 ▸ hshares hindex
    next => exact hindex
  trailing := htrailing
  nextId := Nat.le_refl _

theorem proceeds_takeComments : Proceeds floor takeComments :=
  .ofHere fun _ hfloor => ⟨_, _, rfl,
    .of_leading (fun ⟨_, hfirst, _⟩ => nomatch hfirst) fun _ _ => .inl, hfloor⟩

theorem proceeds_takeTrailing : Proceeds floor takeTrailing := by
  refine .ofHere fun cursor hfloor => ?_
  cases hleading : cursor.current.leading with
  | nil => exact ⟨_, _, rfl, .refl cursor, hfloor⟩
  | cons first rest =>
    dsimp only
    by_cases hline : first.newlineBefore = true
    · rw [if_pos hline]
      exact ⟨_, _, rfl, .refl cursor, hfloor⟩
    · rw [if_neg hline]
      have hshares : cursor.SharesLine cursor.position :=
        ⟨first, by rw [← Cursor.current, hleading]; rfl, Bool.eq_false_iff.2 hline⟩
      refine ⟨_, _, rfl, .of_leading (fun _ => hshares) ?_, hfloor⟩
      rintro index stop ⟨rfl, rfl⟩
      exact .inr hshares

theorem proceeds_trivia (index : Nat) (comments : List Comment) (blankLineBefore : Bool) :
    Proceeds floor (trivia index comments blankLineBefore) :=
  .of_looks fun _ => looks_trivia index comments blankLineBefore

theorem proceeds_closingTrivia (index : Nat) (comments : List Comment) :
    Proceeds floor (closingTrivia index comments) :=
  .of_looks fun _ => looks_closingTrivia index comments

theorem proceeds_takeLayout : Proceeds floor takeLayout :=
  .skip proceeds_takeComments fun _ => .get fun _ _ => .skip (proceeds_trivia _ _ _) fun _ => .pure .nil

theorem proceeds_takeClosing : Proceeds floor takeClosing :=
  .skip proceeds_takeComments fun _ => .get fun _ _ =>
    .skip (proceeds_closingTrivia _ _) fun _ => .pure .nil

theorem proceeds_captureFrom (start : Nat) (canonical : String) :
    Proceeds floor (captureFrom start canonical) :=
  .of_looks fun _ => looks_captureFrom start canonical

/-! ### Trying, and repeating -/

/-- A parser that is tried goes on wherever it stops. -/
theorem proceeds_attempt {parser : Parser α} (h : Proceeds floor parser) :
    Proceeds floor (attempt parser) where
  ok := by
    intro cursor cursor' result hfloor heq
    rw [attempt] at heq
    have hids (cursor' : Cursor) : Drawn [] cursor.nextId [] cursor'.nextId :=
      ⟨.nil _, List.forall_mem_nil _⟩
    split at heq
    next value hvalue =>
      cases heq
      exact ⟨(h.ok hfloor hvalue).1, (h.ok hfloor hvalue).2.1, fun _ => hids _⟩
    next failure hfailure =>
      cases heq
      exact ⟨(h.error hfloor hfailure).1, (h.error hfloor hfailure).2, fun _ => hids _⟩
    next => cases heq
  error := by
    intro cursor cursor' failure hfloor heq
    rw [attempt] at heq
    split at heq
    next => cases heq
    next => cases heq
    next hfailure =>
      cases heq
      exact h.error hfloor hfailure

theorem proceeds_rewind {position : Nat} (h : floor ≤ position) : Proceeds floor (rewind position) :=
  .modifyGet fun _ _ => ⟨.of_eq rfl rfl rfl (Nat.le_refl _), h⟩

theorem reads_withNoLambda {parser : Parser α} (noLambda : Bool) (h : Reads floor held parser ids) :
    Reads floor held (withNoLambda noLambda parser) ids where
  ok := by
    intro cursor cursor' value hfloor heq
    rw [withNoLambda] at heq
    split at heq
    next cursor' hvalue =>
      cases heq
      obtain ⟨honward, hfloor', hdrawn⟩ := h.ok (by exact hfloor) hvalue
      exact ⟨(Cursor.Onward.of_noLambda cursor noLambda).trans
        (honward.trans (.of_noLambda cursor' cursor.noLambda)), hfloor', hdrawn⟩
    next => cases heq
  error := by
    intro cursor cursor' failure hfloor heq
    rw [withNoLambda] at heq
    split at heq
    next => cases heq
    next cursor' hfailure =>
      cases heq
      obtain ⟨honward, hfloor'⟩ := h.error (by exact hfloor) hfailure
      exact ⟨(Cursor.Onward.of_noLambda cursor noLambda).trans
        (honward.trans (.of_noLambda cursor' cursor.noLambda)), hfloor'⟩

/-- What each step of a loop keeps, the loop keeps: the identities in the state are held until it is done. -/
theorem reads_iterate {held : α → List NodeId} {ids : β → List NodeId}
    {step : α → Parser (LoopStep α β)}
    (h : ∀ state, Reads floor (held state) (step state) (LoopStep.ids held ids)) (fuel : Nat)
    (state : α) : Reads floor (held state) (iterate step fuel state) ids := by
  induction fuel generalizing state with
  | zero => exact .throw _
  | succ fuel ih =>
    refine (h state).andThen fun result => ?_
    cases result with
    | «continue» state => exact ih state
    | done result => exact .pure (.refl _)

theorem reads_loop (held : α → List NodeId) (ids : β → List NodeId)
    {step : α → Parser (LoopStep α β)}
    (h : ∀ state, Reads floor (held state) (step state) (LoopStep.ids held ids)) (state : α) :
    Reads floor (held state) (loop step state) ids :=
  .get fun _ _ => reads_iterate h _ state

/-- A loop whose result has no identities. -/
theorem proceeds_loop {step : α → Parser (LoopStep α β)} (h : ∀ state, Proceeds floor (step state))
    (state : α) : Proceeds floor (loop step state) :=
  reads_loop (fun _ => []) (fun _ => []) (fun state => (h state).congr fun result => by
    cases result <;> exact .nil) state

theorem reversedIds_cons (value : α) (items : List α) :
    reversedIds ids (value :: items) = reversedIds ids items ++ ids value := by
  simp [reversedIds]

/-- One more item goes to the others. -/
theorem reads_anotherItem {value : α} {items : List α} {again : Bool} :
    Reads floor (reversedIds ids items ++ ids value)
      (if again then pure (.continue (value :: items)) else pure (.done (value :: items).reverse))
      (LoopStep.ids (reversedIds ids) fun items : List α => items.flatMap ids) := by
  rw [← reversedIds_cons]
  split <;> exact .pure (.refl _)

/-- One more item, or the items so far. -/
theorem reads_manyStep {condition : Parser Bool} {item : Parser α}
    (hcondition : Proceeds floor condition) (hitem : Reads floor [] item ids) (items : List α) :
    Reads floor (reversedIds ids items) (do
        if ← condition then
          let value ← item
          return .continue (value :: items)
        else
          return .done items.reverse)
      (LoopStep.ids (reversedIds ids) fun items : List α => items.flatMap ids) := by
  refine .skip hcondition fun again => ?_
  cases again with
  | false => exact .pure (.refl _)
  | true =>
    refine .bind hitem fun value => ?_
    rw [← reversedIds_cons]
    exact .pure (.refl _)

theorem reads_manyWhile {condition : Parser Bool} {item : Parser α}
    (hcondition : Proceeds floor condition) (hitem : Reads floor [] item ids) :
    Reads floor [] (manyWhile condition item) fun items => items.flatMap ids :=
  reads_loop (reversedIds ids) _ (reads_manyStep hcondition hitem) []

theorem reads_separatedBy {separator : Punct} {item : Parser α} (hitem : Reads floor [] item ids) :
    Reads floor [] (separatedBy separator item) fun items => items.flatMap ids := by
  refine reads_loop (reversedIds ids) _ (fun items => .bind hitem fun value => ?_) []
  exact .skip (proceeds_eatPunct separator) fun _ => reads_anotherItem

theorem reads_listUntil {closing : Punct} {item : Parser α} (hitem : Reads floor [] item ids) :
    Reads floor [] (listUntil closing item) fun items => items.flatMap ids := by
  refine reads_loop (reversedIds ids) _ (fun items => ?_) []
  refine .skip (proceeds_atPunct closing) fun ended => ?_
  cases ended with
  | true => exact .pure (.refl _)
  | false =>
    refine .bind hitem fun value => ?_
    exact .skip (proceeds_eatPunct .comma) fun _ => reads_anotherItem

/-- Items without identities. -/
theorem proceeds_manyWhile {condition : Parser Bool} {item : Parser α}
    (hcondition : Proceeds floor condition) (hitem : Proceeds floor item) :
    Proceeds floor (manyWhile condition item) :=
  (reads_manyWhile hcondition hitem).proceeds

theorem proceeds_separatedBy {separator : Punct} {item : Parser α} (hitem : Proceeds floor item) :
    Proceeds floor (separatedBy separator item) :=
  (reads_separatedBy hitem).proceeds

theorem proceeds_listUntil {closing : Punct} {item : Parser α} (hitem : Proceeds floor item) :
    Proceeds floor (listUntil closing item) :=
  (reads_listUntil hitem).proceeds

end Steps

end AdviceMigration.Source
