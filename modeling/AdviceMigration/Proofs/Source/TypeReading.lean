import AdviceMigration.Proofs.Source.Facing
import AdviceMigration.Proofs.Source.TypeWording

/-!
# Written types are read back

A type is read back from its lexemes, whatever of `,` and `>` follows them, or the end of the text. The productions for the parts of a type read their parts back if the inner production for types does so behind the first token; the whole grammar does so by induction on its depth. A loop over segments or arguments is settled by its two kinds of steps, the last one and those before it.
-/

namespace AdviceMigration.Source

open AdviceMigration.Text

variable {rest : List Lexeme}

/-! ### Productions that read types back -/

/-- Whether a cursor has lexemes in front of it, whatever they are. -/
abbrev Cursor.Has : Nat → Nat → Bool → List Lexeme → Cursor → Prop := Cursor.Sees fun _ => True

/-- Whether a parser reads a value back from its lexemes in front of a rest. -/
def ReadsAs {α : Type} (size floor : Nat) (parser : Parser α) (lexemes : List Lexeme) (value : α)
    (rest : List Lexeme) : Prop :=
  ∀ joint, Delivers parser (Cursor.Has size floor joint (lexemes ++ rest)) fun result cursor =>
    result = value ∧ cursor.Has size (floor + 1) true rest

/-- What can follow a type: the next type argument, or the end of the arguments or of the text. -/
inductive EndsType : List Lexeme → Prop
  | ended : EndsType []
  | closed {punct : Punct} (h : punct ∈ [.comma, .greater]) {rest : List Lexeme} :
    EndsType (punct.lexeme :: rest)

theorem EndsType.nextKind_mem (h : EndsType rest) :
    nextKind rest ∈ [.eof, .punct .comma, .punct .greater] := by
  cases h with
  | ended => exact .head _
  | closed h =>
    simp only [List.mem_cons, List.not_mem_nil, or_false] at h
    rcases h with rfl | rfl
    · exact .tail _ (.head _)
    · exact .tail _ (.tail _ (.head _))

theorem EndsType.ne (h : EndsType rest) {kind : TokenKind}
    (hkind : kind ∉ [.eof, .punct .comma, .punct .greater]) : nextKind rest ≠ kind := by
  rintro rfl
  exact hkind h.nextKind_mem

section Primitives

variable {α β : Type} {size floor : Nat} {joint : Bool} {lexemes : List Lexeme}
  {before : Cursor → Prop} {after : β → Cursor → Prop}

/-- A look ahead that does not matter. -/
theorem delivers_peek_any {next : TokenKind → Parser β} (h : ∀ kind, Delivers (next kind) before after) :
    Delivers (peek 1 >>= next) before after :=
  .bind (fun cursor hbefore => ⟨_, cursor, rfl, hbefore⟩) h

theorem delivers_expectIdent {word : String} (hword : IsToken .ident word) (message : String)
    {next : String → Parser β}
    (h : Delivers (next word) (Cursor.Has size (floor + 1) true rest) after) :
    Delivers (expectIdent message >>= next) (Cursor.Has size floor joint (wordLexeme word :: rest))
      after := by
  rw [wordLexeme_eq_of_ident hword]
  refine .bindEq (delivers_atKind _ ?_) h
  rw [nextKind, beq_self_eq_true, if_pos rfl]
  refine delivers_text.weaken (fun _ => id) ?_
  intro text cursor hafter
  exact ⟨hafter.1.trans String.ofList_toList, hafter.2⟩

theorem loop_eq_of_done {step : α → Parser (LoopStep α β)} {state : α} {result : β}
    {cursor cursor' : Cursor} (h : step state cursor = .ok (.done result) cursor') :
    loop step state cursor = .ok result cursor' := iterate_eq_of_done h _

/-- A loop over items takes none where its condition does not hold. -/
theorem delivers_manyWhile_none {condition : Parser Bool} {item : Parser α} {next : List α → Parser β}
    (hcondition : Delivers condition before fun found cursor => found = false ∧ before cursor)
    (h : ∀ items, Delivers (next items) before after) :
    Delivers (manyWhile condition item >>= next) before after := by
  refine .bind (fun cursor hbefore => ?_) h
  obtain ⟨_, cursor', hok, rfl, hbefore'⟩ := hcondition hbefore
  refine ⟨[], cursor', loop_eq_of_done ?_, hbefore'⟩
  change EStateM.bind condition _ cursor = _
  rw [EStateM.bind, hok]
  rfl

end Primitives

/-- A loop that reads items one by one, the last of which it knows by what follows. -/
theorem delivers_items {α : Type} {step : List α → Parser (LoopStep (List α) (List α))}
    {holds : α → Prop} {faces : List α → Nat → Cursor → Prop} {done : Cursor → Prop}
    {size bottom : Nat} (hbelow : ∀ {items floor cursor}, faces items floor cursor → floor < size)
    (hlast : ∀ {item floor} found, bottom ≤ floor → holds item →
      Delivers (step found) (faces [item] floor) fun result cursor =>
        result = .done (item :: found).reverse ∧ done cursor)
    (hmore : ∀ {item next items floor} found, bottom ≤ floor → holds item → holds next →
      Delivers (step found) (faces (item :: next :: items) floor) fun result cursor =>
        result = .continue (item :: found) ∧ faces (next :: items) (floor + 1) cursor)
    {item : α} {items found : List α} {floor fuel : Nat} (hitems : ∀ other ∈ item :: items, holds other)
    (hfloor : bottom ≤ floor) (hfuel : size ≤ floor + fuel) :
    Delivers (iterate step fuel found) (faces (item :: items) floor) fun result cursor =>
      result = found.reverse ++ item :: items ∧ done cursor := by
  induction items generalizing item found floor fuel with
  | nil =>
    cases fuel with
    | zero => exact fun cursor hfaces => absurd (hbelow hfaces) (Nat.not_lt_of_le hfuel)
    | succ fuel =>
      intro cursor hfaces
      obtain ⟨_, cursor', hok, rfl, hdone⟩ := hlast found hfloor (hitems item (.head _)) hfaces
      exact ⟨_, cursor', iterate_eq_of_done hok fuel, by rw [List.reverse_cons], hdone⟩
  | cons next items ih =>
    cases fuel with
    | zero => exact fun cursor hfaces => absurd (hbelow hfaces) (Nat.not_lt_of_le hfuel)
    | succ fuel =>
      intro cursor hfaces
      obtain ⟨_, cursor', hok, rfl, hfaces'⟩ := hmore found hfloor (hitems item (.head _))
        (hitems next (.tail _ (.head _))) hfaces
      obtain ⟨result, cursor'', hok', hresult, hdone⟩ :=
        @ih next (item :: found) (floor + 1) fuel (fun other hmem => hitems other (.tail _ hmem))
          (Nat.le_succ_of_le hfloor) (by omega) cursor' hfaces'
      refine ⟨result, cursor'', ?_, ?_, hdone⟩
      · rw [iterate_eq_of_continue hok, hok']
      · rw [hresult, List.reverse_cons, List.append_assoc, List.singleton_append]

theorem TypeSegment.allWritten_iff {segments : List TypeSegment} :
    TypeSegment.AllWritten segments ↔ ∀ segment ∈ segments, segment.Written := by
  induction segments with
  | nil => simp [TypeSegment.AllWritten]
  | cons segment rest ih => rw [TypeSegment.AllWritten, ih, List.forall_mem_cons]

theorem TypeArg.allWritten_iff {args : List TypeArg} :
    TypeArg.AllWritten args ↔ ∀ arg ∈ args, arg.Written := by
  induction args with
  | nil => simp [TypeArg.AllWritten]
  | cons arg rest ih => rw [TypeArg.AllWritten, ih, List.forall_mem_cons]

namespace Grammar

/-- Whether the inner production for types reads them back from every token on, `bottom` being the first. -/
def ReadsTypes (g : Grammar) (size bottom : Nat) : Prop :=
  ∀ ⦃floor : Nat⦄ ⦃type : TypeRef⦄ ⦃rest : List Lexeme⦄, bottom ≤ floor → type.Written → EndsType rest →
    ReadsAs size floor g.type type.lexemes type rest

variable {g : Grammar} {size floor : Nat} {joint : Bool}

/-! ### Type arguments -/

section Annots

variable {lexemes : List Lexeme} (hkind : nextKind lexemes ≠ .punct .at)

include hkind

theorem delivers_notAt : Delivers (atPunct .at) (Cursor.Has size floor joint lexemes) fun found cursor =>
    found = false ∧ cursor.Has size floor joint lexemes := by
  intro cursor hsees
  have hfound : atPunct .at cursor = _ := atKind_eq hsees.position_lt _
  rw [hsees.kind_current, beq_eq_false_iff_ne.2 hkind] at hfound
  exact ⟨false, cursor, hfound, rfl, hsees⟩

theorem delivers_notAnnot : Delivers atAnnot (Cursor.Has size floor joint lexemes) fun found cursor =>
    found = false ∧ cursor.Has size floor joint lexemes :=
  (delivers_notAt hkind).bindEq (delivers_peek_any fun _ => .pure fun _ hsees => ⟨rfl, hsees⟩)

end Annots

theorem reads_typeArg {bottom : Nat} (h : g.ReadsTypes size bottom) (hfloor : bottom ≤ floor) {arg : TypeArg}
    (harg : arg.Written) (hrest : EndsType rest) : ReadsAs size floor g.typeArg arg.lexemes arg rest := by
  intro joint
  obtain ⟨lexeme, more, hmore, hlexeme⟩ := harg.exists_head
  have hat : nextKind (arg.lexemes ++ rest) ≠ .punct .at := by
    rw [hmore, List.cons_append]
    rcases hlexeme with rfl | ⟨word, rfl, -⟩
    · rintro ⟨⟩
    · exact (TokenKind.ofWord_facts word).1 _
  refine delivers_manyWhile_none (delivers_notAt hat) fun _ => ?_
  have hbound {bound : TypeRef} (hbound : bound.Written) (build : TypeRef → TypeArg) :
      Delivers (do return build (← g.type)) (Cursor.Has size (floor + 2) false (bound.lexemes ++ rest))
        fun result cursor => result = build bound ∧ cursor.Has size (floor + 1) true rest := by
    refine (h (Nat.le_add_right_of_le hfloor) hbound hrest false).bindEq (.pure fun _ hsees => ?_)
    exact ⟨rfl, hsees.mono (by omega)⟩
  cases arg with
  | type type =>
    obtain ⟨word, more', hmore', -⟩ := TypeRef.Written.exists_head harg
    have hquestion : nextKind (type.lexemes ++ rest) ≠ .punct .question := by
      rw [hmore', List.cons_append]
      exact (TokenKind.ofWord_facts word).1 _
    refine delivers_eat_ne hquestion ?_
    exact (h hfloor harg hrest joint).bindEq (.pure fun _ hsees => ⟨rfl, hsees⟩)
  | wildcard =>
    refine delivers_eat (delivers_eat_ne (hrest.ne (by decide)) (delivers_eat_ne (hrest.ne (by decide)) ?_))
    exact .pure fun _ hsees => ⟨rfl, hsees⟩
  | wildcardExtends bound =>
    exact delivers_eat (delivers_gap (delivers_eat (delivers_gap (hbound harg .wildcardExtends))))
  | wildcardSuper bound =>
    refine delivers_eat (delivers_gap (delivers_eat_ne (by rintro ⟨⟩) ?_))
    exact delivers_eat (delivers_gap (hbound harg .wildcardSuper))

/-- The cursors from a position on that have items in front of them. -/
def HasItems {α : Type} (size : Nat) (lexemes : List α → List Lexeme) (rest : List Lexeme) (items : List α)
    (floor : Nat) (cursor : Cursor) : Prop :=
  ∃ joint, cursor.Has size floor joint (lexemes items ++ rest)

theorem HasItems.floor_lt {α : Type} {lexemes : List α → List Lexeme} {items : List α} {cursor : Cursor}
    (h : HasItems size lexemes rest items floor cursor) : floor < size := by
  obtain ⟨joint, hsees⟩ := h
  exact Nat.lt_of_le_of_lt hsees.floor hsees.sound.position

/-- A step of a loop over items, whatever stands in front of them. -/
theorem delivers_hasItems {α β : Type} {parser : Parser β} {lexemes : List α → List Lexeme}
    {items : List α} {after : β → Cursor → Prop}
    (h : ∀ joint, Delivers parser (Cursor.Has size floor joint (lexemes items ++ rest)) after) :
    Delivers parser (HasItems size lexemes rest items floor) after := by
  rintro cursor ⟨joint, hsees⟩
  exact h joint hsees

theorem delivers_typeArgList (h : g.ReadsTypes size (floor + 1)) {arg : TypeArg} {args : List TypeArg}
    (hargs : TypeArg.AllWritten (arg :: args)) :
    ReadsAs size (floor + 1) (separatedBy .comma g.typeArg) (TypeArg.listLexemes (arg :: args)) (arg :: args)
      (Punct.greater.lexeme :: rest) := by
  intro joint cursor hsees
  have hends : EndsType (Punct.greater.lexeme :: rest) := .closed (by decide)
  refine @delivers_items TypeArg _ TypeArg.Written
    (HasItems size TypeArg.listLexemes (Punct.greater.lexeme :: rest))
    (Cursor.Has size (floor + 2) true (Punct.greater.lexeme :: rest)) size (floor + 1) HasItems.floor_lt
    ?_ ?_ arg args [] (floor + 1) _ (TypeArg.allWritten_iff.1 hargs) (Nat.le_refl _) ?_ cursor ⟨joint, hsees⟩
  · intro item floor' found hle hitem
    refine delivers_hasItems fun joint => ?_
    refine (reads_typeArg h hle hitem hends joint).bindEq ?_
    exact delivers_eat_ne (by rintro ⟨⟩) (.pure fun _ hsees => ⟨rfl, hsees.mono (Nat.succ_le_succ hle)⟩)
  · intro item next items floor' found hle hitem _
    refine delivers_hasItems fun joint => ?_
    rw [TypeArg.listLexemes, List.append_assoc, List.cons_append, List.cons_append]
    · refine (reads_typeArg h hle hitem (.closed (by decide)) joint).bindEq ?_
      refine delivers_eat (.pure fun _ hsees => ⟨rfl, false, ?_⟩)
      exact (hsees.mono (Nat.le_succ _)).gap
    · exact List.cons_ne_nil _ _
  · have hcount := hsees.sound.count
    omega

theorem reads_typeArgs (h : g.ReadsTypes size (floor + 1)) {args : List TypeArg}
    (hargs : TypeArg.AllWritten args) :
    ReadsAs size floor g.typeArgs (Punct.less.lexeme :: (TypeArg.listLexemes args ++ [Punct.greater.lexeme]))
      args rest := by
  intro joint
  rw [List.cons_append, List.append_assoc, List.singleton_append]
  refine delivers_expect _ ?_
  cases args with
  | nil => exact delivers_eat (.pure fun _ hsees => ⟨rfl, hsees.mono (Nat.le_succ _)⟩)
  | cons arg args =>
    obtain ⟨more, hmore⟩ := TypeArg.exists_listLexemes_eq arg args
    obtain ⟨lexeme, more', hmore', hlexeme⟩ := hargs.1.exists_head
    have hgreater : nextKind (TypeArg.listLexemes (arg :: args) ++ Punct.greater.lexeme :: rest) ≠
        .punct .greater := by
      rw [hmore, hmore', List.append_assoc, List.cons_append]
      rcases hlexeme with rfl | ⟨word, rfl, -⟩
      · rintro ⟨⟩
      · exact (TokenKind.ofWord_facts word).1 _
    refine delivers_eat_ne hgreater ((delivers_typeArgList h hargs true).bindEq ?_)
    exact delivers_expect _ (.pure fun _ hsees => ⟨rfl, hsees.mono (by omega)⟩)

/-! ### Class types -/

theorem reads_typeSegment (h : g.ReadsTypes size (floor + 1)) {segment : TypeSegment}
    (hsegment : segment.Written) (hrest : nextKind rest ≠ .punct .less) :
    ReadsAs size floor g.typeSegment segment.lexemes segment rest := by
  intro joint
  cases segment with
  | plain name =>
    rw [TypeSegment.lexemes, List.singleton_append]
    refine delivers_expectIdent hsegment _ (delivers_atKind _ ?_)
    rw [beq_eq_false_iff_ne.2 hrest]
    exact .pure fun _ hsees => ⟨rfl, hsees⟩
  | generic name args =>
    refine delivers_expectIdent hsegment.1 _ (delivers_atKind _ ?_)
    have hlater : g.ReadsTypes size (floor + 2) := fun _ _ _ hle => h (Nat.le_of_succ_le hle)
    exact (reads_typeArgs hlater hsegment.2 true).bindEq
      (.pure fun _ hsees => ⟨rfl, hsees.mono (Nat.le_succ _)⟩)

theorem nextKind_listLexemes {segment : TypeSegment} (h : segment.Written) (segments : List TypeSegment)
    (rest : List Lexeme) : nextKind (TypeSegment.listLexemes (segment :: segments) ++ rest) = .ident := by
  obtain ⟨more, hmore⟩ := TypeSegment.exists_listLexemes_eq segment segments
  obtain ⟨name, more', hmore', hname⟩ := h.exists_head
  rw [hmore, hmore', List.append_assoc, List.cons_append]
  exact hname.ofWord_eq

theorem reads_classType (h : g.ReadsTypes size (floor + 1)) {segments : List TypeSegment}
    (hsegments : TypeRef.Written (.named segments)) (hless : nextKind rest ≠ .punct .less)
    (hdot : nextKind rest ≠ .punct .dot) :
    ReadsAs size floor g.classType (TypeSegment.listLexemes segments) (.named segments) rest := by
  intro joint
  obtain ⟨hne, hsegments⟩ := hsegments
  obtain ⟨segment, segments, rfl⟩ := List.exists_cons_of_ne_nil hne
  refine .bindEq (fun cursor hsees => ?_) (.pure fun _ hsees => ⟨rfl, hsees⟩)
  refine @delivers_items TypeSegment _ TypeSegment.Written (HasItems size TypeSegment.listLexemes rest)
    (Cursor.Has size (floor + 1) true rest) size floor HasItems.floor_lt ?_ ?_ segment segments []
    floor _ (TypeSegment.allWritten_iff.1 hsegments) (Nat.le_refl _) ?_ cursor ⟨joint, hsees⟩
  · intro item floor' found hle hitem
    refine delivers_hasItems fun joint => ?_
    have hlater : g.ReadsTypes size (floor' + 1) := fun _ _ _ hle' =>
      h (Nat.le_trans (Nat.succ_le_succ hle) hle')
    refine (reads_typeSegment hlater hitem hless joint).bindEq (delivers_atKind _ ?_)
    rw [beq_eq_false_iff_ne.2 hdot]
    exact delivers_peek_any fun _ => .pure fun _ hsees => ⟨rfl, hsees.mono (Nat.succ_le_succ hle)⟩
  · intro item next items floor' found hle hitem hnext
    refine delivers_hasItems fun joint => ?_
    have hlater : g.ReadsTypes size (floor' + 1) := fun _ _ _ hle' =>
      h (Nat.le_trans (Nat.succ_le_succ hle) hle')
    rw [TypeSegment.listLexemes, List.append_assoc, List.cons_append]
    · have hident := nextKind_listLexemes hnext items rest
      refine (reads_typeSegment hlater hitem (by rintro ⟨⟩) joint).bindEq (delivers_atKind _ ?_)
      refine delivers_peek ?_
      rw [hident]
      exact delivers_pass (.pure fun _ hsees => ⟨rfl, true, hsees.mono (Nat.le_succ _)⟩)
    · exact List.cons_ne_nil _ _
  · have hcount := hsees.sound.count
    omega

/-! ### Types -/

/-- As many pairs of brackets as an array type has dimensions. -/
def bracketLexemes : Nat → List Lexeme
  | 0 => []
  | n + 1 => bracketLexemes n ++ [Punct.lBracket.lexeme, Punct.rBracket.lexeme]

/-- A type that is no array type, and the dimensions it has. -/
theorem exists_arrayOf : (type : TypeRef) → type.Written → ∃ (element : TypeRef) (n : Nat),
    type = element.arrayOf n ∧ type.lexemes = element.lexemes ++ bracketLexemes n ∧ element.Written ∧
      element.isArray = false
  | .primitive primitive, h => ⟨_, 0, rfl, (List.append_nil _).symm, h, rfl⟩
  | .named segments, h => ⟨_, 0, rfl, (List.append_nil _).symm, h, rfl⟩
  | .array type, h => by
    obtain ⟨element, n, htype, hlexemes, helement, harray⟩ := exists_arrayOf type h
    refine ⟨element, n + 1, by rw [htype, TypeRef.arrayOf], ?_, helement, harray⟩
    rw [TypeRef.lexemes, hlexemes, bracketLexemes, List.append_assoc]

theorem bracketLexemes_succ (n : Nat) :
    bracketLexemes (n + 1) = Punct.lBracket.lexeme :: Punct.rBracket.lexeme :: bracketLexemes n := by
  induction n with
  | zero => rfl
  | succ n ih =>
    change bracketLexemes (n + 1) ++ _ = _
    rw [ih, List.cons_append, List.cons_append, ← ih]
    rfl

theorem nextKind_brackets (n : Nat) (hrest : EndsType rest) :
    nextKind (bracketLexemes n ++ rest) ∈ [.eof, .punct .comma, .punct .greater, .punct .lBracket] := by
  cases n with
  | zero => exact List.mem_append_left [.punct .lBracket] hrest.nextKind_mem
  | succ n =>
    rw [bracketLexemes_succ]
    exact .tail _ (.tail _ (.tail _ (.head _)))

/-- The step of the loop over pairs of brackets. -/
abbrev bracketStep (type : TypeRef) : Parser (LoopStep TypeRef TypeRef) := do
  if ← atBrackets then
    bump
    bump
    return .continue (.array type)
  else return .done type

theorem arrives_brackets (element : TypeRef) (n : Nat) (rest : List Lexeme) :
    Arrives (pure element) bracketStep (Cursor.Has size floor true (bracketLexemes n ++ rest))
      fun state cursor => state = element.arrayOf n ∧ cursor.Has size floor true rest := by
  induction n generalizing rest with
  | zero => exact .refl (.pure fun _ hsees => ⟨rfl, hsees⟩)
  | succ n ih =>
    rw [bracketLexemes, List.append_assoc]
    refine (ih _).next fun state floor' hle hstate => ?_
    refine .bindEq (delivers_atKind _ (delivers_peek (.pure fun _ hsees => ⟨rfl, hsees⟩))) ?_
    rw [hstate]
    exact delivers_pass (delivers_pass
      (.pure fun _ hsees => ⟨_, rfl, rfl, hsees.mono (Nat.le_succ _)⟩))

theorem delivers_brackets (element : TypeRef) (n : Nat) (hrest : EndsType rest) :
    Delivers (brackets element) (Cursor.Has size floor true (bracketLexemes n ++ rest))
      fun result cursor => result = element.arrayOf n ∧ cursor.Has size floor true rest := by
  have hloop : Delivers (pure element >>= Source.loop bracketStep)
      (Cursor.Has size floor true (bracketLexemes n ++ rest)) fun result cursor =>
        result = element.arrayOf n ∧ cursor.Has size floor true rest := by
    have hnone : Delivers atBrackets (Cursor.Has size floor true rest) fun found cursor =>
        found = false ∧ cursor.Has size floor true rest := by
      refine delivers_atKind _ ?_
      rw [beq_eq_false_iff_ne.2 (hrest.ne (by decide))]
      exact delivers_peek_any fun _ => .pure fun _ hsees => ⟨rfl, hsees⟩
    refine (arrives_brackets element n rest).loop fun state hstate => ?_
    exact hnone.bindEq (.pure fun _ hsees => ⟨_, rfl, hstate, hsees⟩)
  rwa [pure_bind] at hloop

theorem primitive?_word (primitive : PrimitiveType) :
    (TokenKind.ofWord primitive.word).primitive? = some primitive := by cases primitive <;> rfl

theorem reads_typeRef (h : g.ReadsTypes size (floor + 1)) {type : TypeRef} (htype : type.Written)
    (hrest : EndsType rest) : ReadsAs size floor g.typeRef type.lexemes type rest := by
  intro joint
  obtain ⟨word, more, hmore, -⟩ := htype.exists_head
  have hat : nextKind (type.lexemes ++ rest) ≠ .punct .at := by
    rw [hmore, List.cons_append]
    exact (TokenKind.ofWord_facts word).1 _
  refine delivers_manyWhile_none (delivers_notAnnot hat) fun _ => delivers_kind ?_
  obtain ⟨element, n, rfl, hlexemes, helement, harray⟩ := exists_arrayOf type htype
  have hkind := nextKind_brackets n hrest
  have hbrackets : Delivers (brackets element)
      (Cursor.Has size (floor + 1) true (bracketLexemes n ++ rest)) fun result cursor =>
        result = element.arrayOf n ∧ cursor.Has size (floor + 1) true rest :=
    delivers_brackets element n hrest
  rw [hlexemes, List.append_assoc]
  cases element with
  | void => cases helement
  | array => cases harray
  | primitive primitive =>
    have hfirst : (nextKind (TypeRef.lexemes (.primitive primitive) ++ (bracketLexemes n ++ rest))).primitive? =
        some primitive := primitive?_word primitive
    rw [hfirst]
    exact delivers_pass hbrackets
  | named segments =>
    obtain ⟨segment, segments, rfl⟩ := List.exists_cons_of_ne_nil helement.1
    have hident := nextKind_listLexemes helement.2.1 segments (bracketLexemes n ++ rest)
    rw [TypeRef.lexemes, hident]
    refine delivers_atKind _ ?_
    rw [hident]
    have hne (kind : TokenKind) (h : kind ∉ [.eof, .punct .comma, .punct .greater, .punct .lBracket]) :
        nextKind (bracketLexemes n ++ rest) ≠ kind := by
      rintro rfl
      exact h hkind
    exact (reads_classType h helement (hne _ (by decide)) (hne _ (by decide)) joint).bindEq hbrackets

theorem readsTypes_grammar (depth : Nat) {size bottom : Nat} (h : size ≤ bottom + depth) :
    (grammar depth).ReadsTypes size bottom := by
  induction depth generalizing bottom with
  | zero => exact fun _ _ _ hle _ _ _ => delivers_of_size_le (Nat.le_trans h hle)
  | succ depth ih =>
    have hinner := ih (show size ≤ bottom + 1 + depth by omega)
    exact fun floor _ _ hle => reads_typeRef fun _ _ _ hle' =>
      hinner (Nat.le_trans (Nat.succ_le_succ hle) hle')

end Grammar

/-- Whether a text is read as a type from its first token to its last, and as which one. -/
def ReadsBackType (text : String) (type : TypeRef) : Prop :=
  ∃ stream, tokens text = .ok stream ∧ ∀ nextId, ∃ cursor,
    (grammar (stream.length + 1)).typeRef (Cursor.start text.toList.toArray stream nextId) =
      .ok type cursor ∧ cursor.current.kind = .eof

/-- Every written type is read back from its text. -/
theorem readsBackType_text {type : TypeRef} (h : type.Written) : ReadsBackType type.text type := by
  have hscans : ScansAll type.lexemes := by
    have hscans := type.scansAll h [] (by rintro c ⟨⟩) trivial
    rwa [List.append_nil] at hscans
  have htext : type.text = String.ofList (charsOf type.lexemes) := by
    rw [type.charsOf_lexemes, String.ofList_toList]
  rw [htext]
  refine ⟨_, hscans.tokens_eq, fun nextId => ?_⟩
  have hstart : Cursor.Has (Token.ofLexemes type.lexemes).length 0 false type.lexemes
      (Cursor.start (charsOf type.lexemes).toArray (Token.ofLexemes type.lexemes) nextId) :=
    hscans.sees_start trivial nextId
  have hgrammar := Grammar.readsTypes_grammar ((Token.ofLexemes type.lexemes).length + 1)
    (show (Token.ofLexemes type.lexemes).length ≤ 1 + ((Token.ofLexemes type.lexemes).length + 1) by omega)
  have hread := Grammar.reads_typeRef hgrammar h .ended false
  rw [List.append_nil] at hread
  obtain ⟨result, cursor, hok, rfl, hsees⟩ := hread hstart
  exact ⟨cursor, by rwa [String.toList_ofList], hsees.kind_current⟩

/-- A class type with a wildcard two levels deep, `Map<String, List<? extends T[]>>`. -/
def nestedMap : TypeRef :=
  .named [.generic "Map" [.type (.simple "String"),
    .type (.named [.generic "List" [.wildcardExtends (.array (.simple "T"))]])]]

theorem written_nestedMap : nestedMap.Written := by
  have hident {name : String} {token : Token} {rest : List Token} (h : tokens name = .ok (token :: rest))
      (hkind : token.kind = .ident) (htext : token.text = name) : (TypeRef.simple name).Written :=
    ⟨List.cons_ne_nil _ _, isToken_of_eq h hkind htext, trivial⟩
  have hlist : TypeRef.Written (.named [.generic "List" [.wildcardExtends (.array (.simple "T"))]]) :=
    ⟨List.cons_ne_nil _ _, ⟨isToken_of_eq rfl rfl rfl, hident rfl rfl rfl, trivial⟩, trivial⟩
  exact ⟨List.cons_ne_nil _ _, ⟨isToken_of_eq rfl rfl rfl, hident rfl rfl rfl, hlist, trivial⟩, trivial⟩

theorem readsBackType_text_nestedMap : nestedMap.Written ∧ ReadsBackType nestedMap.text nestedMap :=
  ⟨written_nestedMap, readsBackType_text written_nestedMap⟩

end AdviceMigration.Source
