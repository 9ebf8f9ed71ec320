import AdviceMigration.Proofs.Source.Numbers
import Mathlib.Data.List.Find

/-!
# Lexemes in front of a text

`Scans` says of a lexeme that it is what is scanned where it stands, in front of a given text. A token that is scanned in front of one text is scanned in front of every other text that does not go on with it; what goes on with a token shows in the first character behind it. A text that is put together from lexemes, each of which is scanned in its place, is cut into just these lexemes, and its tokens are their words.
-/

namespace AdviceMigration.Source

open AdviceMigration.Text

/-! ### One token -/

/-- Whether a lexeme is what is scanned in front of a text. -/
def Scans (lexeme : Lexeme) (after : List Char) : Prop :=
  ∃ c rest, lexeme.chars = c :: rest ∧ scan c (rest ++ after) = .ok lexeme

/-- Whether a token is a numeric literal. -/
def TokenKind.isNumber : TokenKind → Bool
  | .literal .int | .literal .long | .literal .float | .literal .double => true
  | _ => false

theorem scan_eq_scanToken {c : Char} (hblank : isBlank c = false) (hslash : c ≠ '/') (rest : List Char) :
    scan c rest = scanToken c rest := by
  unfold scan
  split
  · exact absurd rfl hslash
  · exact absurd rfl hslash
  · cases hblank
  · rw [if_neg (Bool.eq_false_iff.1 hblank)]

theorem scanToken_of_scan {c : Char} {rest chars : List Char} {kind : TokenKind}
    (h : scan c rest = .ok (.token kind chars)) :
    isBlank c = false ∧ scanToken c rest = .ok (.token kind chars) := by
  unfold scan at h
  split at h
  · cases h
  · split at h <;> cases h
  · cases h
  · split_ifs at h with hblank
    · cases h
    · exact ⟨Bool.eq_false_iff.2 hblank, h⟩

theorem isNumber_numberEnd (hex floating : Bool) (length : Nat) (rest : List Char) :
    (TokenKind.literal (numberEnd hex floating length rest).1).isNumber = true := by
  unfold numberEnd
  split <;> split_ifs <;> rfl

theorem isNumber_number (cs : List Char) : (TokenKind.literal (number cs).1).isNumber = true := by
  have hdecimal (cs : List Char) : (TokenKind.literal (decimalNumber cs).1).isNumber = true :=
    isNumber_numberEnd _ _ _ _
  unfold number
  split
  · split_ifs
    · exact isNumber_numberEnd _ _ _ _
    · exact isNumber_numberEnd _ _ _ _
    · exact hdecimal _
  · exact hdecimal _

/-! ### Quoted literals -/

theorem quotedLength_take {quote : Char} (hquote : quote ≠ '\\') {cs : List Char} {length : Nat}
    (h : quotedLength quote cs = some length) (rest : List Char) :
    quotedLength quote (cs.take length ++ rest) = some length := by
  fun_induction quotedLength quote cs generalizing length with
  | case1 => cases h
  | case2 c cs ih =>
    obtain ⟨shorter, hshorter, rfl⟩ := Option.map_eq_some_iff.1 h
    change quotedLength quote ('\\' :: c :: (cs.take shorter ++ rest)) = _
    rw [quotedLength, ih hshorter]
    rfl
  | case3 c cs hescape hclose =>
    cases h
    have hc : c ≠ '\\' := fun hc => hquote ((beq_iff_eq.1 hclose).symm.trans hc)
    change quotedLength quote (c :: rest) = _
    rw [quotedLength, if_pos hclose]
    exact fun _ _ heq => absurd heq hc
  | case4 c cs hescape hclose hfeed => cases h
  | case5 c cs hescape hclose hfeed ih =>
    obtain ⟨shorter, hshorter, rfl⟩ := Option.map_eq_some_iff.1 h
    have hc : c ≠ '\\' := by
      rintro rfl
      cases cs with
      | nil => cases hshorter
      | cons d cs => exact hescape d cs rfl rfl
    change quotedLength quote (c :: (cs.take shorter ++ rest)) = _
    rw [quotedLength, if_neg hclose, if_neg hfeed, ih hshorter]
    · rfl
    · exact fun _ _ heq => absurd heq hc

theorem textBlockLength_bounds {cs : List Char} {length : Nat}
    (h : textBlockLength cs = some length) : 3 ≤ length ∧ length ≤ cs.length := by
  fun_induction textBlockLength cs generalizing length with
  | case1 => cases h
  | case2 c cs ih =>
    obtain ⟨shorter, hshorter, rfl⟩ := Option.map_eq_some_iff.1 h
    have := ih hshorter
    simp only [List.length_cons]
    omega
  | case3 cs =>
    cases h
    simp
  | case4 c cs hescape hclose ih =>
    obtain ⟨shorter, hshorter, rfl⟩ := Option.map_eq_some_iff.1 h
    have := ih hshorter
    simp only [List.length_cons]
    omega

theorem textBlockLength_take {cs : List Char} {length : Nat}
    (h : textBlockLength cs = some length) (rest : List Char) :
    textBlockLength (cs.take length ++ rest) = some length := by
  fun_induction textBlockLength cs generalizing length with
  | case1 => cases h
  | case2 c cs ih =>
    obtain ⟨shorter, hshorter, rfl⟩ := Option.map_eq_some_iff.1 h
    change textBlockLength ('\\' :: c :: (cs.take shorter ++ rest)) = _
    rw [textBlockLength, ih hshorter]
    rfl
  | case3 cs =>
    cases h
    rfl
  | case4 c cs hescape hclose ih =>
    obtain ⟨shorter, hshorter, rfl⟩ := Option.map_eq_some_iff.1 h
    have hc : c ≠ '\\' := by
      rintro rfl
      cases cs with
      | nil => cases hshorter
      | cons d cs => exact hescape d cs rfl rfl
    change textBlockLength (c :: (cs.take shorter ++ rest)) = _
    rw [textBlockLength, ih hshorter]
    · rfl
    · exact fun _ _ heq => absurd heq hc
    · -- The characters in front of the closing quotes are the same as before.
      intro more hquote heq
      have hbounds := textBlockLength_bounds hshorter
      obtain ⟨fewer, rfl⟩ := Nat.exists_eq_add_of_le hbounds.1
      match cs, hbounds.2 with
      | [], hle => simp at hle
      | [d], hle => simp at hle; omega
      | d :: e :: cs, _ =>
        rw [Nat.add_comm 3] at heq
        simp only [List.take_succ_cons, List.cons_append, List.cons.injEq] at heq
        exact hclose cs hquote (by rw [heq.1, heq.2.1])


/-! ### Words and numbers -/

theorem takeWhile_transfer {p : Char → Bool} {chars after after' : List Char}
    (h : (chars ++ after).takeWhile p = chars) (hstop : ∀ c ∈ after'.head?, p c = false) :
    (chars ++ after').takeWhile p = chars := by
  have hlength := congrArg List.length h
  have hsame := length_takeWhile_transfer (Nat.le_of_eq hlength) hstop
  have hfront := List.prefix_iff_eq_take.1 (List.takeWhile_prefix (l := chars ++ after') p)
  rw [hfront, hsame, hlength, List.take_left]

theorem two_le_number_point {d : Char} (hd : d.isDigit = true) (rest : List Char) :
    2 ≤ (number ('.' :: d :: rest)).2 := by
  have hrun : 1 ≤ digitRun (d :: rest) := by simp [digitRun, hd]
  have hfraction : fractionLength ('.' :: d :: rest) = 1 + digitRun (d :: rest) := by
    rw [fractionLength_point, if_pos (by simp [hd])]
  rw [number_of_head fun heq => absurd heq (by decide)]
  refine Nat.le_trans ?_ (length_le_numberEnd _ _ _ _)
  change 2 ≤ 0 + fractionLength ('.' :: d :: rest) + _
  omega

theorem quotedLength_bounds {quote : Char} {cs : List Char} {length : Nat}
    (h : quotedLength quote cs = some length) : 1 ≤ length ∧ length ≤ cs.length := by
  fun_induction quotedLength quote cs generalizing length with
  | case1 => cases h
  | case2 c cs ih =>
    obtain ⟨shorter, hshorter, rfl⟩ := Option.map_eq_some_iff.1 h
    have := ih hshorter
    simp only [List.length_cons]
    omega
  | case3 c cs hescape hclose =>
    cases h
    simp
  | case4 => cases h
  | case5 c cs hescape hclose hfeed ih =>
    obtain ⟨shorter, hshorter, rfl⟩ := Option.map_eq_some_iff.1 h
    have := ih hshorter
    simp only [List.length_cons]
    omega

/-- What stands in front of the rest of a text, cut off after as many characters. -/
theorem length_eq_of_take {n : Nat} {chars after : List Char} (h : (chars ++ after).take n = chars)
    (hn : n ≤ (chars ++ after).length) : n = chars.length := by
  have hlength := congrArg List.length h
  rw [List.length_take] at hlength
  omega

theorem quotedLength_transfer {quote : Char} (hquote : quote ≠ '\\') {chars after : List Char}
    (h : quotedLength quote (chars ++ after) = some chars.length) (after' : List Char) :
    quotedLength quote (chars ++ after') = some chars.length := by
  have hsame := quotedLength_take hquote h after'
  rwa [List.take_left] at hsame

theorem scanToken_quote (rest : List Char) : scanToken '"' rest =
    match rest with
    | '"' :: '"' :: body =>
      match textBlockLength body with
      | some length => .ok (.token (.literal .textBlock) (('"' :: rest).take (3 + length)))
      | none => .error .unterminatedTextBlock
    | _ =>
      match quotedLength '"' rest with
      | some length => .ok (.token (.literal .string) (('"' :: rest).take (1 + length)))
      | none => .error .unterminatedString := rfl

theorem scanToken_textBlock (body : List Char) : scanToken '"' ('"' :: '"' :: body) =
    match textBlockLength body with
    | some length => .ok (.token (.literal .textBlock) (('"' :: '"' :: '"' :: body).take (3 + length)))
    | none => .error .unterminatedTextBlock := rfl

theorem scanToken_slash (rest : List Char) : scanToken '/' rest =
    match Punct.ofStart? ('/' :: rest) with
    | some punct => .ok (.token (.punct punct) punct.text.toList)
    | none => .error (.strayChar '/') := rfl

theorem scanToken_apostrophe (rest : List Char) : scanToken '\x27' rest =
    match quotedLength '\x27' rest with
    | some length => .ok (.token (.literal .char) (('\x27' :: rest).take (1 + length)))
    | none => .error .unterminatedChar := rfl

section Quotes

variable {rest after after' : List Char} {kind : TokenKind}

theorem scanToken_apostrophe_transfer
    (h : scanToken '\x27' (rest ++ after) = .ok (.token kind ('\x27' :: rest))) :
    scanToken '\x27' (rest ++ after') = .ok (.token kind ('\x27' :: rest)) := by
  rw [scanToken_apostrophe] at h ⊢
  split at h
  next length hlength =>
    rw [Nat.add_comm, List.take_succ_cons] at h
    simp only [Except.ok.injEq, Lexeme.token.injEq, List.cons.injEq, true_and] at h
    obtain ⟨rfl, htake⟩ := h
    cases length_eq_of_take htake (quotedLength_bounds hlength).2
    rw [quotedLength_transfer (by decide) hlength after']
    dsimp only
    rw [Nat.add_comm, List.take_succ_cons, List.take_left]
  next => cases h

theorem scanToken_quote_transfer (hquotes : after'.head? ≠ some '"')
    (h : scanToken '"' (rest ++ after) = .ok (.token kind ('"' :: rest))) :
    scanToken '"' (rest ++ after') = .ok (.token kind ('"' :: rest)) := by
  rw [scanToken_quote] at h
  split at h
  next body heq =>
    split at h
    next length hlength =>
      simp only [Except.ok.injEq, Lexeme.token.injEq] at h
      obtain ⟨rfl, htake⟩ := h
      rw [heq, Nat.add_comm, List.take_succ_cons, List.take_succ_cons, List.take_succ_cons] at htake
      obtain ⟨-, rfl⟩ := List.cons.inj htake
      have hcount : (body.take length).length = length :=
        List.length_take_of_le (textBlockLength_bounds hlength).2
      rw [List.cons_append, List.cons_append, scanToken_textBlock, textBlockLength_take hlength]
      dsimp only
      rw [Nat.add_comm, List.take_succ_cons, List.take_succ_cons, List.take_succ_cons, List.take_left' hcount]
    next => cases h
  next hopen =>
    split at h
    next length hlength =>
      rw [Nat.add_comm, List.take_succ_cons] at h
      simp only [Except.ok.injEq, Lexeme.token.injEq, List.cons.injEq, true_and] at h
      obtain ⟨rfl, htake⟩ := h
      have hbounds := quotedLength_bounds hlength
      cases length_eq_of_take htake hbounds.2
      rw [scanToken_quote]
      split
      next body heq =>
        -- Only the empty literal could go on with a third quote.
        cases rest with
        | nil => exact absurd hbounds.1 (by decide)
        | cons d rest =>
          obtain ⟨rfl, htail⟩ := List.cons.inj heq
          have hone : 1 = ('"' :: rest).length := Option.some.inj hlength
          rw [List.length_cons] at hone
          have hempty : rest = [] := List.eq_nil_of_length_eq_zero (by omega)
          cases hempty
          exact absurd (congrArg List.head? htail) hquotes
      next =>
        rw [quotedLength_transfer (by decide) hlength after']
        dsimp only
        rw [Nat.add_comm, List.take_succ_cons, List.take_left]
    next => cases h

end Quotes

/-- A token that is scanned in front of one text is scanned in front of every other one that does not go on with it. -/
theorem scanToken_transfer {c : Char} {rest after after' : List Char} {kind : TokenKind}
    (h : scanToken c (rest ++ after) = .ok (.token kind (c :: rest))) (hkind : ∀ punct, kind ≠ .punct punct)
    (hword : ∀ d ∈ after'.head?, isIdentContinue d = false) (hquotes : after'.head? ≠ some '"')
    (hnumber : kind.isNumber = true → EndsNumber (endsOpen (c :: rest)) after') :
    scanToken c (rest ++ after') = .ok (.token kind (c :: rest)) := by
  by_cases hquote : c = '"'
  · subst hquote
    exact scanToken_quote_transfer hquotes h
  by_cases hapostrophe : c = '\x27'
  · subst hapostrophe
    exact scanToken_apostrophe_transfer h
  unfold scanToken at h ⊢
  split_ifs at h with hstart hdigit
  · simp only [Except.ok.injEq, Lexeme.token.injEq, List.cons.injEq, true_and] at h
    obtain ⟨rfl, hrest⟩ := h
    rw [if_pos hstart]
    dsimp only
    rw [takeWhile_transfer hrest hword, hrest]
  · rw [if_neg hstart]
    simp only [Except.ok.injEq, Lexeme.token.injEq] at h
    obtain ⟨rfl, hchars⟩ := h
    have hlength : (number (c :: (rest ++ after))).2 = (c :: rest).length := by
      have hle := number_le (c :: (rest ++ after))
      have hcount := congrArg List.length hchars
      rw [List.length_take] at hcount
      omega
    have hnumber' : number (c :: (rest ++ after')) = number (c :: (rest ++ after)) :=
      number_transfer (hnumber (isNumber_number _)) (List.cons_ne_nil c rest) hlength
    have hpoint : (c.isDigit || (c == '.' && (rest ++ after').head?.any Char.isDigit)) = true := by
      cases rest with
      | nil =>
        -- A lone point is no number: digits come with it.
        rcases Bool.or_eq_true _ _ ▸ hdigit with hc | hpoint
        · rw [hc, Bool.true_or]
        · obtain ⟨hc, hdigits⟩ := Bool.and_eq_true _ _ ▸ hpoint
          cases beq_iff_eq.1 hc
          cases after with
          | nil => simp at hdigits
          | cons d after =>
            have htwo := two_le_number_point (by simpa using hdigits) after
            rw [List.nil_append] at hlength
            rw [hlength] at htwo
            exact absurd htwo (by decide)
      | cons d rest => exact hdigit
    have htake : (c :: (rest ++ after')).take (c :: rest).length = c :: rest := by
      rw [← List.cons_append, List.take_left]
    rw [if_pos hpoint, hnumber']
    dsimp only
    rw [hlength, htake]
  · exact absurd (beq_iff_eq.1 ‹_›) hquote
  · exact absurd (beq_iff_eq.1 ‹_›) hapostrophe
  · split at h
    · simp only [Except.ok.injEq, Lexeme.token.injEq] at h
      exact absurd h.1.symm (hkind _)
    · cases h

/-- A token that is a word or a literal ends where it did in front of every text that does not go on with it. -/
theorem Scans.transfer {kind : TokenKind} {chars after after' : List Char}
    (h : Scans (.token kind chars) after) (hkind : ∀ punct, kind ≠ .punct punct)
    (hword : ∀ d ∈ after'.head?, isIdentContinue d = false) (hquotes : after'.head? ≠ some '"')
    (hnumber : kind.isNumber = true → EndsNumber (endsOpen chars) after') :
    Scans (.token kind chars) after' := by
  obtain ⟨c, rest, rfl, hscan⟩ := h
  obtain ⟨hblank, htoken⟩ := scanToken_of_scan hscan
  refine ⟨c, rest, rfl, ?_⟩
  by_cases hslash : c = '/'
  · subst hslash
    rw [scanToken_slash] at htoken
    split at htoken
    · simp only [Except.ok.injEq, Lexeme.token.injEq] at htoken
      exact absurd htoken.1.symm (hkind _)
    · cases htoken
  · rw [scan_eq_scanToken hblank hslash]
    exact scanToken_transfer htoken hkind hword hquotes hnumber

/-! ### Signs -/

namespace Punct

/-- The characters that make a longer sign of a sign. -/
def extensions (punct : Punct) : List Char :=
  (all.filter fun longer => punct.text.toList.isPrefixOf longer.text.toList).filterMap fun longer =>
    longer.text.toList[punct.text.toList.length]?

/-- Whether a character right behind a sign makes something else of it: a longer sign, a number or a comment. -/
def goesOn (punct : Punct) (c : Char) : Bool :=
  punct.extensions.contains c || (punct == .dot && c.isDigit) ||
    (punct == .slash && (c == '/' || c == '*'))

variable {punct longer : Punct} {after : List Char}

theorem mem_all (punct : Punct) : punct ∈ all := by cases punct <;> decide

theorem find?_all (punct : Punct) :
    (all.find? fun shorter => shorter.text.toList.isPrefixOf punct.text.toList) = some punct := by
  cases punct <;> decide

theorem isPrefixOf_append (h : ∀ c ∈ after.head?, punct.goesOn c = false) :
    longer.text.toList.isPrefixOf (punct.text.toList ++ after) =
      longer.text.toList.isPrefixOf punct.text.toList := by
  rw [Bool.eq_iff_iff, List.isPrefixOf_iff_prefix, List.isPrefixOf_iff_prefix]
  refine ⟨fun hfront => ?_, fun hfront => hfront.trans (List.prefix_append _ _)⟩
  by_cases hle : longer.text.toList.length ≤ punct.text.toList.length
  · exact List.prefix_of_prefix_length_le hfront (List.prefix_append _ _) hle
  · cases after with
    | nil => rwa [List.append_nil] at hfront
    | cons c after =>
      have hone : punct.text.toList ++ [c] <+: longer.text.toList := by
        refine List.prefix_of_prefix_length_le ?_ hfront ?_
        · exact (List.prefix_append_right_inj _).2 (List.prefix_append [c] after)
        · rw [List.length_append, List.length_singleton]
          omega
      have hmem : c ∈ punct.extensions := by
        obtain ⟨rest, hrest⟩ := hone
        refine List.mem_filterMap.2 ⟨longer, List.mem_filter.2 ⟨mem_all longer, ?_⟩, ?_⟩
        · exact List.isPrefixOf_iff_prefix.2 ((List.prefix_append _ _).trans ⟨rest, hrest⟩)
        · rw [← hrest, List.append_assoc, List.getElem?_append_right (Nat.le_refl _), Nat.sub_self]
          rfl
      have hnot := h c rfl
      simp only [goesOn, Bool.or_eq_false_iff, List.contains_eq_mem, decide_eq_false_iff_not] at hnot
      exact absurd hmem hnot.1.1

theorem ofStart?_append (h : ∀ c ∈ after.head?, punct.goesOn c = false) :
    ofStart? (punct.text.toList ++ after) = some punct := by
  rw [← find?_all punct]
  exact List.find?_congr fun longer _ => isPrefixOf_append h

/-- A sign starts no word, no literal and no white space. -/
theorem head_facts (punct : Punct) : ∀ c ∈ punct.text.toList.head?, isBlank c = false ∧
    isIdentStart c = false ∧ c.isDigit = false ∧ (c == '"') = false ∧ (c == '\x27') = false := by
  intro c hc
  cases punct <;> cases hc <;> decide

/-- A sign is scanned in front of every text that makes nothing else of it. -/
theorem scans (h : ∀ c ∈ after.head?, punct.goesOn c = false) :
    Scans (.token (.punct punct) punct.text.toList) after := by
  obtain ⟨c, rest, hchars⟩ := List.exists_cons_of_ne_nil punct.text_ne_nil
  obtain ⟨hblank, hstart, hdigit, hquote, hapostrophe⟩ := punct.head_facts c (by rw [hchars]; rfl)
  refine ⟨c, rest, hchars, ?_⟩
  have htoken : scanToken c (rest ++ after) = .ok (.token (.punct punct) punct.text.toList) := by
    have hpoint : (c == '.' && (rest ++ after).head?.any Char.isDigit) = false := by
      cases punct with
      | dot =>
        cases hchars
        cases after with
        | nil => rfl
        | cons d after =>
          have hd := h d rfl
          simp only [goesOn, Bool.or_eq_false_iff] at hd
          have hdigits : d.isDigit = false := by simpa using hd.1.2
          rw [List.nil_append, List.head?_cons, Option.any_some, hdigits, Bool.and_false]
      | _ => cases hchars; rfl
    unfold scanToken
    rw [hstart, hdigit, hpoint, hquote, hapostrophe, ← List.cons_append, ← hchars, ofStart?_append h]
    rfl
  by_cases hslash : c = '/'
  · cases punct with
    | slash =>
      cases hchars
      rw [← htoken]
      cases after with
      | nil => rfl
      | cons d after =>
        have hd := h d rfl
        simp only [goesOn, Bool.or_eq_false_iff, beq_self_eq_true, Bool.true_and] at hd
        have hd' := hd.2
        unfold scan
        split <;> simp_all
    | slashEq => cases hchars; rw [← htoken]; rfl
    | _ => cases hchars; cases hslash
  · rw [scan_eq_scanToken hblank hslash, htoken]

end Punct

/-! ### Texts that are cut into lexemes -/

/-- Whether each lexeme is what is scanned in front of those after it. -/
def ScansAll : List Lexeme → Prop
  | [] => True
  | lexeme :: rest => Scans lexeme (charsOf rest) ∧ ScansAll rest

theorem lexemesFrom_skip (position : Nat) (read : List Lexeme) (chars rest : List Char) :
    lexemesFrom position chars.length read (chars ++ rest) =
      lexemesFrom (position + chars.length) 0 read rest := by
  induction chars generalizing position with
  | nil => rfl
  | cons c chars ih =>
    rw [List.length_cons, List.cons_append, lexemesFrom, ih]
    congr 1
    omega

theorem lexemesFrom_charsOf {lexemes : List Lexeme} (h : ScansAll lexemes) (position : Nat)
    (read : List Lexeme) :
    lexemesFrom position 0 read (charsOf lexemes) = .ok (read.reverse ++ lexemes) := by
  induction lexemes generalizing position read with
  | nil => rw [charsOf_nil, lexemesFrom, List.append_nil]
  | cons lexeme rest ih =>
    obtain ⟨⟨c, chars, hchars, hscan⟩, hrest⟩ := h
    rw [charsOf_cons, hchars, List.cons_append, lexemesFrom, hscan]
    dsimp only
    rw [hchars, List.length_cons, Nat.add_sub_cancel, lexemesFrom_skip, ih hrest,
      List.reverse_cons, List.append_assoc]
    rfl

/-- The lexemes of a text are those it is put together from, if each of them is what is scanned in its place. -/
theorem lexemes_charsOf {lexemes : List Lexeme} (h : ScansAll lexemes)
    (hmark : (charsOf lexemes).head? ≠ some byteOrderMark) :
    Source.lexemes (charsOf lexemes) = .ok lexemes := by
  have hfrom := lexemesFrom_charsOf h 0 []
  unfold Source.lexemes
  split
  next c rest hchars =>
    rw [hchars] at hmark
    rw [if_neg (by simpa using hmark)]
    exact hfrom
  next hnil =>
    rw [hnil, lexemesFrom] at hfrom
    exact hfrom

theorem scans_of_lexemesFrom {position skip : Nat} {read lexemes : List Lexeme} {cs : List Char}
    (h : lexemesFrom position skip read cs = .ok lexemes) :
    ∀ lexeme ∈ lexemes, lexeme ∈ read ∨ ∃ after, Scans lexeme after := by
  induction cs generalizing position skip read with
  | nil =>
    rw [lexemesFrom] at h
    cases h
    exact fun lexeme hmem => .inl (List.mem_reverse.1 hmem)
  | cons c rest ih =>
    unfold lexemesFrom at h
    split at h
    · exact ih h
    · split at h
      next lexeme hscan =>
        intro other hmem
        rcases ih h other hmem with hread | hscans
        · rcases List.mem_cons.1 hread with rfl | hread
          · obtain ⟨after, hafter, hstretch⟩ := scan_eq_ok hscan
            obtain ⟨d, chars, hchars⟩ := List.exists_cons_of_ne_nil hstretch.chars_ne_nil
            rw [hchars, List.cons_append, List.cons.injEq] at hafter
            obtain ⟨rfl, rfl⟩ := hafter
            exact .inr ⟨after, c, chars, hchars, hscan⟩
          · exact .inl hread
        · exact .inr hscans
      next => cases h

/-! ### Words -/

/-- What an expression is read by: the kind and text of a token, and whether it touches the token before it. -/
structure Word where
  kind : TokenKind
  text : String
  joint : Bool
  deriving DecidableEq

/-- A token without its place. -/
def Token.word (token : Token) : Word := ⟨token.kind, token.text, token.joint⟩

/-- The words of lexemes, the final one included. The flag tells whether a token stands right in front of them. -/
def wordsOf : (joint : Bool) → List Lexeme → List Word
  | joint, [] => [⟨.eof, "", joint⟩]
  | joint, .token kind chars :: rest => ⟨kind, String.ofList chars, joint⟩ :: wordsOf true rest
  | joint, .byteOrderMark :: rest => wordsOf joint rest
  | _, .blank _ :: rest => wordsOf false rest
  | _, .lineFeed :: rest => wordsOf false rest
  | _, .comment _ _ :: rest => wordsOf false rest

theorem map_word_foldl (lexemes : List Lexeme) (reader : TokenReader) :
    ((lexemes.foldl TokenReader.take reader).push .eof []).tokens.reverse.map Token.word =
      reader.tokens.reverse.map Token.word ++
        wordsOf (!reader.sawTrivia && !reader.tokens.isEmpty) lexemes := by
  induction lexemes generalizing reader with
  | nil => simp [TokenReader.push, wordsOf, Token.word]
  | cons lexeme rest ih =>
    rw [List.foldl_cons, ih]
    cases lexeme <;> simp [TokenReader.take, TokenReader.push, wordsOf, Token.word]

theorem map_word_ofLexemes (lexemes : List Lexeme) :
    (Token.ofLexemes lexemes).map Token.word = wordsOf false lexemes := by
  have h := map_word_foldl lexemes {}
  simpa [Token.ofLexemes] using h

theorem exists_lexeme_of_mem_wordsOf {joint : Bool} {lexemes : List Lexeme} {word : Word}
    (h : word ∈ wordsOf joint lexemes) (hkind : word.kind ≠ .eof) :
    ∃ chars, .token word.kind chars ∈ lexemes ∧ word.text = String.ofList chars := by
  induction lexemes generalizing joint with
  | nil =>
    cases List.mem_singleton.1 h
    exact absurd rfl hkind
  | cons lexeme rest ih =>
    have hlater {joint : Bool} (hrest : word ∈ wordsOf joint rest) :
        ∃ chars, Lexeme.token word.kind chars ∈ lexeme :: rest ∧ word.text = String.ofList chars := by
      obtain ⟨chars, hmem, htext⟩ := ih hrest
      exact ⟨chars, .tail _ hmem, htext⟩
    cases lexeme with
    | token kind chars =>
      rcases List.mem_cons.1 h with rfl | hrest
      · exact ⟨chars, .head _, rfl⟩
      · exact hlater hrest
    | _ => exact hlater h

/-- Whether a text is that of a token of the given kind, in whatever text the token stands. -/
def IsToken (kind : TokenKind) (text : String) : Prop :=
  ∃ source result, tokens source = .ok result ∧ ∃ token ∈ result, token.kind = kind ∧ token.text = text

theorem isToken_of_eq {kind : TokenKind} {text : String} {token : Token} {rest : List Token}
    (h : tokens text = .ok (token :: rest)) (hkind : token.kind = kind) (htext : token.text = text) :
    IsToken kind text := ⟨text, _, h, token, .head _, hkind, htext⟩

theorem IsToken.exists_scans {kind : TokenKind} {text : String} (h : IsToken kind text)
    (hkind : kind ≠ .eof) : ∃ after, Scans (.token kind text.toList) after := by
  obtain ⟨source, result, hresult, token, hmem, rfl, rfl⟩ := h
  unfold tokens at hresult
  split at hresult
  next pieces hpieces =>
    cases hresult
    have hword := List.mem_map_of_mem (f := Token.word) hmem
    rw [map_word_ofLexemes] at hword
    obtain ⟨chars, hlexeme, htext⟩ := exists_lexeme_of_mem_wordsOf hword hkind
    change token.text = String.ofList chars at htext
    rw [htext, String.toList_ofList]
    have hscans (read : List Lexeme) (hread : read ⊆ [.byteOrderMark]) {position : Nat} {cs : List Char}
        (hfrom : lexemesFrom position 0 read cs = .ok pieces) :
        ∃ after, Scans (.token token.kind chars) after := by
      rcases scans_of_lexemesFrom hfrom _ hlexeme with hmem | hscans
      · cases List.mem_singleton.1 (hread hmem)
      · exact hscans
    unfold lexemes at hpieces
    split at hpieces
    · split_ifs at hpieces
      · exact hscans _ (fun _ => id) hpieces
      · exact hscans [] (List.nil_subset _) hpieces
    · cases hpieces
      cases hlexeme
  next => cases hresult

end AdviceMigration.Source
