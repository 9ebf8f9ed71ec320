import AdviceMigration.Proofs.Source.Tokens

/-!
# Where a number ends

A number is read in stages, each of which takes as many characters as it can. What comes behind it matters only by its first character, and only where that character could go on with the number: a sign goes on with it if the number ends in the mark of an exponent. So a number that is read in front of one text is read in front of every other text that does not go on with it.
-/

namespace AdviceMigration.Source

open AdviceMigration.Text

/-! ### The stages of a number -/

/-- The characters that can come right behind a number, signs apart. -/
def closers : List Char := [' ', ')', ']', ',', '[']

/-- The mark of a decimal exponent. -/
def isDecimalMark (c : Char) : Bool := c == 'e' || c == 'E'

/-- The mark of a hexadecimal exponent. -/
def isHexMark (c : Char) : Bool := c == 'p' || c == 'P'

/-- Whether a number ends in the mark of an exponent, so that a sign behind it would belong to the number. -/
def endsOpen : List Char → Bool
  | '0' :: mark :: body =>
    if mark == 'x' || mark == 'X' then body.getLast?.any isHexMark
    else if mark == 'b' || mark == 'B' then false
    else ('0' :: mark :: body).getLast?.any isDecimalMark
  | chars => chars.getLast?.any isDecimalMark

/-- Length of an exponent with one of the given marks at the start of a text. -/
def markedExponent (isMark : Char → Bool) : List Char → Nat
  | c :: rest => if isMark c then 1 + exponentLength rest else 0
  | [] => 0

/-- Length of a hexadecimal fraction at the start of a text. -/
def hexFraction : List Char → Nat
  | '.' :: rest => 1 + hexRun rest
  | _ => 0

/-- Whether a text is empty, or goes on with a character that ends a number. A sign ends it unless it belongs to an exponent. -/
def EndsNumber (isOpen : Bool) (after : List Char) : Prop :=
  ∀ c ∈ after.head?, c ∈ closers ∨ isOpen = false ∧ (c = '+' ∨ c = '-')

/-- Kind and length of a number that is made of digits, a fraction, an exponent and a suffix; `offset` characters stand before its digits. -/
def stagedNumber (run fraction : List Char → Nat) (isMark : Char → Bool) (hex : Bool) (offset : Nat)
    (cs : List Char) : LiteralKind × Nat :=
  let digits := run cs
  let fraction := fraction (cs.drop digits)
  let exponent := markedExponent isMark (cs.drop (digits + fraction))
  let length := digits + fraction + exponent
  numberEnd hex (fraction + exponent != 0) (offset + length) (cs.drop length)

theorem decimalNumber_eq (cs : List Char) :
    decimalNumber cs = stagedNumber digitRun fractionLength isDecimalMark false 0 cs := by
  unfold stagedNumber
  dsimp only
  rw [Nat.zero_add]
  rfl

theorem hexNumber_eq (body : List Char) :
    hexNumber body = stagedNumber hexRun hexFraction isHexMark true 2 body := rfl

theorem fractionLength_point (rest : List Char) : fractionLength ('.' :: rest) =
    if rest.head?.all fun c => c.isDigit || !isAsciiIdent c then 1 + digitRun rest else 0 := by
  cases rest <;> rfl

theorem fractionLength_of_head {cs : List Char} (h : cs.head? ≠ some '.') : fractionLength cs = 0 := by
  unfold fractionLength
  split
  · exact absurd rfl h
  · rfl

theorem hexFraction_of_head {cs : List Char} (h : cs.head? ≠ some '.') : hexFraction cs = 0 := by
  unfold hexFraction
  split
  · exact absurd rfl h
  · rfl

theorem exponentLength_cons (c : Char) (rest : List Char) : exponentLength (c :: rest) =
    if c == '+' || c == '-' then 1 + digitRun rest else digitRun (c :: rest) := by
  unfold exponentLength
  split
  next heq =>
    obtain ⟨rfl, rfl⟩ := List.cons.inj heq
    rfl
  next heq =>
    obtain ⟨rfl, rfl⟩ := List.cons.inj heq
    rfl
  next hplus hminus =>
    have hc : (c == '+' || c == '-') = false := by
      simp only [Bool.or_eq_false_iff, beq_eq_false_iff_ne]
      exact ⟨fun heq => hplus rest (by rw [heq]), fun heq => hminus rest (by rw [heq])⟩
    rw [hc]
    rfl

/-! ### A number is part of its text -/

theorem digitRun_le (cs : List Char) : digitRun cs ≤ cs.length := (List.takeWhile_prefix _).length_le

theorem hexRun_le (cs : List Char) : hexRun cs ≤ cs.length := (List.takeWhile_prefix _).length_le

theorem fractionLength_le (cs : List Char) : fractionLength cs ≤ cs.length := by
  by_cases h : cs.head? = some '.'
  · obtain ⟨rest, rfl⟩ := List.head?_eq_some_iff.1 h
    rw [fractionLength_point, List.length_cons]
    have := digitRun_le rest
    split_ifs <;> omega
  · rw [fractionLength_of_head h]
    exact Nat.zero_le _

theorem hexFraction_le (cs : List Char) : hexFraction cs ≤ cs.length := by
  by_cases h : cs.head? = some '.'
  · obtain ⟨rest, rfl⟩ := List.head?_eq_some_iff.1 h
    rw [hexFraction, List.length_cons]
    have := hexRun_le rest
    omega
  · rw [hexFraction_of_head h]
    exact Nat.zero_le _

theorem exponentLength_le (cs : List Char) : exponentLength cs ≤ cs.length := by
  cases cs with
  | nil => exact Nat.le_refl 0
  | cons c rest =>
    rw [exponentLength_cons]
    split_ifs
    · rw [List.length_cons, Nat.add_comm]
      exact Nat.succ_le_succ (digitRun_le rest)
    · exact digitRun_le _

theorem markedExponent_le (isMark : Char → Bool) (cs : List Char) :
    markedExponent isMark cs ≤ cs.length := by
  cases cs with
  | nil => exact Nat.le_refl 0
  | cons c rest =>
    rw [markedExponent]
    split_ifs
    · rw [List.length_cons, Nat.add_comm]
      exact Nat.succ_le_succ (exponentLength_le rest)
    · exact Nat.zero_le _

theorem numberEnd_le (hex floating : Bool) (length : Nat) (rest : List Char) :
    (numberEnd hex floating length rest).2 ≤ length + rest.length := by
  unfold numberEnd
  cases rest with
  | nil => dsimp only [List.head?_nil]; split_ifs <;> exact Nat.le_refl _
  | cons c rest => dsimp only [List.head?_cons]; split_ifs <;> simp

theorem stagedNumber_le {run fraction : List Char → Nat} (isMark : Char → Bool) (hex : Bool) (offset : Nat)
    (hrun : ∀ cs, run cs ≤ cs.length) (hfraction : ∀ cs, fraction cs ≤ cs.length) (cs : List Char) :
    (stagedNumber run fraction isMark hex offset cs).2 ≤ offset + cs.length := by
  refine Nat.le_trans (numberEnd_le _ _ _ _) ?_
  have h := hrun cs
  have h' := hfraction (cs.drop (run cs))
  have h'' := markedExponent_le isMark (cs.drop (run cs + fraction (cs.drop (run cs))))
  rw [List.length_drop] at h' h'' ⊢
  omega

theorem number_le (cs : List Char) : (number cs).2 ≤ cs.length := by
  have hdecimal (cs : List Char) : (decimalNumber cs).2 ≤ cs.length := by
    rw [decimalNumber_eq]
    refine Nat.le_trans (stagedNumber_le _ _ _ digitRun_le fractionLength_le cs) ?_
    omega
  unfold number
  split
  next mark body =>
    split_ifs
    · rw [hexNumber_eq]
      refine Nat.le_trans (stagedNumber_le _ _ _ hexRun_le hexFraction_le body) ?_
      simp; omega
    · refine Nat.le_trans (numberEnd_le _ _ _ _) ?_
      have := hexRun_le body
      simp; omega
    · exact hdecimal _
  next => exact hdecimal _

/-! ### From one text to another -/

section Transfer

variable {chars after after' : List Char} {isOpen : Bool}

theorem EndsNumber.head_mem (h : EndsNumber isOpen after') :
    ∀ c ∈ after'.head?, c ∈ '+' :: '-' :: closers := by
  intro c hc
  rcases h c hc with hcloser | ⟨-, rfl | rfl⟩
  · exact .tail _ (.tail _ hcloser)
  · exact .head _
  · exact .tail _ (.head _)

/-- A check of all characters of a list, which evaluates, gives one of each of them. -/
theorem eq_false_of_all {p : Char → Bool} {chars : List Char} (h : chars.all (fun c => !p c) = true)
    {c : Char} (hc : c ∈ chars) : p c = false :=
  Bool.not_eq_eq_eq_not.1 (List.all_eq_true.1 h c hc)

theorem EndsNumber.false_of_head (h : EndsNumber isOpen after') {p : Char → Bool}
    (hp : ('+' :: '-' :: closers).all (fun c => !p c) = true) : ∀ c ∈ after'.head?, p c = false :=
  fun c hc => eq_false_of_all hp (h.head_mem c hc)

theorem length_takeWhile_transfer {p : Char → Bool}
    (hbound : ((chars ++ after).takeWhile p).length ≤ chars.length)
    (hstop : ∀ c ∈ after'.head?, p c = false) :
    ((chars ++ after').takeWhile p).length = ((chars ++ after).takeWhile p).length := by
  have hnone : after'.takeWhile p = [] := by
    cases after' with
    | nil => rfl
    | cons c rest => exact List.takeWhile_cons_of_neg (by simp [hstop c rfl])
  rw [List.takeWhile_append] at hbound ⊢
  rw [List.takeWhile_append]
  split at hbound
  next hall =>
    rw [if_pos hall, if_pos hall, hnone]
    rw [List.length_append] at hbound ⊢
    rw [List.length_append]
    simp only [List.length_nil]
    omega
  next hnot => rw [if_neg hnot, if_neg hnot]

theorem digitRun_transfer (h : EndsNumber isOpen after')
    (hbound : digitRun (chars ++ after) ≤ chars.length) :
    digitRun (chars ++ after') = digitRun (chars ++ after) :=
  length_takeWhile_transfer hbound (h.false_of_head (by decide))

theorem hexRun_transfer (h : EndsNumber isOpen after')
    (hbound : hexRun (chars ++ after) ≤ chars.length) :
    hexRun (chars ++ after') = hexRun (chars ++ after) :=
  length_takeWhile_transfer hbound (h.false_of_head (by decide))

theorem digitRun_of_ends (h : EndsNumber isOpen after') : digitRun after' = 0 := by
  cases after' with
  | nil => rfl
  | cons c rest =>
    have hc := h.false_of_head (p := fun c => c.isDigit || c == '_') (by decide) c rfl
    rw [digitRun, List.takeWhile_cons_of_neg (by rw [hc]; exact Bool.false_ne_true)]
    rfl

theorem EndsNumber.head_ne_point (h : EndsNumber isOpen after') : after'.head? ≠ some '.' :=
  fun hhead => absurd (h.head_mem '.' hhead) (by decide)

/-- A fraction ends where it did, unless a lone point was no fraction. -/
theorem fractionLength_transfer (h : EndsNumber isOpen after')
    (hbound : fractionLength (chars ++ after) ≤ chars.length)
    (hpoint : chars = ['.'] → fractionLength (chars ++ after) ≠ 0) :
    fractionLength (chars ++ after') = fractionLength (chars ++ after) := by
  cases chars with
  | nil => rw [List.nil_append, fractionLength_of_head h.head_ne_point, Nat.le_zero.1 hbound]
  | cons c rest =>
    by_cases hc : c = '.'
    · subst hc
      simp only [List.cons_append, fractionLength_point] at hbound hpoint ⊢
      cases rest with
      | nil =>
        have hafter : digitRun after = 0 := by
          have hpos := hpoint rfl
          split at hbound
          next =>
            rw [List.length_singleton] at hbound
            rw [List.nil_append] at hbound
            omega
          next hnot => exact absurd (if_neg hnot) hpos
        have hall : after'.head?.all (fun c => c.isDigit || !isAsciiIdent c) = true := by
          rw [Option.all_eq_true]
          intro c hc
          have hident := h.false_of_head (p := isAsciiIdent) (by decide) c hc
          rw [hident]
          exact Bool.or_true _
        have hsome := hpoint rfl
        rw [List.nil_append, List.nil_append] at *
        rw [if_pos hall, digitRun_of_ends h]
        split at hsome
        next hall' => rw [if_pos hall', hafter]
        next => exact absurd rfl hsome
      | cons d rest =>
        have hhead (after : List Char) : (d :: rest ++ after).head? = some d := rfl
        rw [hhead] at hbound ⊢
        rw [hhead]
        by_cases hd : (some d).all (fun c => c.isDigit || !isAsciiIdent c) = true
        · rw [if_pos hd] at hbound ⊢
          rw [if_pos hd, digitRun_transfer h]
          rw [List.length_cons] at hbound
          omega
        · rw [if_neg hd, if_neg hd]
    · rw [fractionLength_of_head (by simpa using hc), fractionLength_of_head (by simpa using hc)]

theorem hexFraction_transfer (h : EndsNumber isOpen after')
    (hbound : hexFraction (chars ++ after) ≤ chars.length) :
    hexFraction (chars ++ after') = hexFraction (chars ++ after) := by
  cases chars with
  | nil => rw [List.nil_append, hexFraction_of_head h.head_ne_point, Nat.le_zero.1 hbound]
  | cons c rest =>
    by_cases hc : c = '.'
    · subst hc
      have hrun : hexRun (rest ++ after) ≤ rest.length := by
        have := hbound
        simp only [List.cons_append, hexFraction, List.length_cons] at this
        omega
      simp only [List.cons_append, hexFraction, hexRun_transfer h hrun]
    · rw [hexFraction_of_head (by simpa using hc), hexFraction_of_head (by simpa using hc)]

theorem exponentLength_transfer (h : EndsNumber isOpen after') (hopen : chars = [] → isOpen = true)
    (hbound : exponentLength (chars ++ after) ≤ chars.length) :
    exponentLength (chars ++ after') = exponentLength (chars ++ after) := by
  cases chars with
  | nil =>
    rw [List.nil_append, Nat.le_zero.1 hbound, ← digitRun_of_ends h]
    cases after' with
    | nil => rfl
    | cons c rest =>
      have hc : c ∈ closers := (h c rfl).resolve_right (by simp [hopen rfl])
      have hsign : (c == '+' || c == '-') = false :=
        eq_false_of_all (p := fun c => c == '+' || c == '-') (by decide) hc
      rw [exponentLength_cons, hsign]
      rfl
  | cons c rest =>
    simp only [List.cons_append, exponentLength_cons] at hbound ⊢
    split at hbound
    next hsign =>
      rw [if_pos hsign, if_pos hsign, digitRun_transfer h]
      rw [List.length_cons] at hbound
      omega
    next hsign =>
      rw [if_neg hsign, if_neg hsign]
      rw [← List.cons_append] at hbound ⊢
      exact digitRun_transfer h hbound

theorem markedExponent_transfer {isMark : Char → Bool} (h : EndsNumber isOpen after')
    (hmark : ('+' :: '-' :: closers).all (fun c => !isMark c) = true)
    (hopen : chars.getLast?.any isMark = true → isOpen = true)
    (hbound : markedExponent isMark (chars ++ after) ≤ chars.length) :
    markedExponent isMark (chars ++ after') = markedExponent isMark (chars ++ after) := by
  cases chars with
  | nil =>
    rw [List.nil_append, Nat.le_zero.1 hbound]
    cases after' with
    | nil => rfl
    | cons c rest =>
      rw [markedExponent, h.false_of_head hmark c rfl]
      rfl
  | cons c rest =>
    simp only [List.cons_append, markedExponent] at hbound ⊢
    split at hbound
    next hc =>
      rw [if_pos hc, if_pos hc, exponentLength_transfer h]
      · rintro rfl
        exact hopen hc
      · rw [List.length_cons] at hbound
        omega
    next hc => rw [if_neg hc, if_neg hc]

theorem numberEnd_of_length {hex floating : Bool} {length : Nat}
    (h : (numberEnd hex floating length after).2 = length) :
    numberEnd hex floating length after = (if floating then .double else .int, length) := by
  unfold numberEnd at h ⊢
  split at h
  · split_ifs at h ⊢ <;> first | rfl | exact absurd h (Nat.succ_ne_self length)
  · split_ifs at h ⊢ <;> rfl

theorem numberEnd_of_ends {hex floating : Bool} {length : Nat} (h : EndsNumber isOpen after') :
    (numberEnd hex floating length after').2 = length := by
  unfold numberEnd
  split
  next c hc =>
    have hlong : (c == 'l' || c == 'L') = false := h.false_of_head
      (p := fun c => c == 'l' || c == 'L') (by decide) c hc
    have hfloat : (c == 'f' || c == 'F') = false := h.false_of_head
      (p := fun c => c == 'f' || c == 'F') (by decide) c hc
    have hdouble : (c == 'd' || c == 'D') = false := h.false_of_head
      (p := fun c => c == 'd' || c == 'D') (by decide) c hc
    rw [hlong, hfloat, hdouble]
    cases floating <;> rfl
  next => split_ifs <;> rfl

/-- What follows a whole number is no suffix. -/
theorem numberEnd_transfer {hex floating : Bool} {length : Nat} (h : EndsNumber isOpen after')
    (hbound : (numberEnd hex floating length (chars ++ after)).2 = length + chars.length) :
    numberEnd hex floating length (chars ++ after') = numberEnd hex floating length (chars ++ after) := by
  cases chars with
  | nil =>
    rw [List.nil_append] at hbound ⊢
    rw [List.nil_append, numberEnd_of_length hbound, numberEnd_of_length (numberEnd_of_ends h)]
  | cons c rest => rfl

theorem numberEnd_point (hex : Bool) (length : Nat) (rest : List Char) :
    (numberEnd hex false length ('.' :: rest)).2 = length := rfl

/-- Every stage of a number ends where it did. -/
theorem stagedNumber_transfer {run fraction : List Char → Nat} {isMark : Char → Bool} {hex : Bool}
    {offset : Nat} (h : EndsNumber isOpen after')
    (hrun : ∀ {chars : List Char}, run (chars ++ after) ≤ chars.length →
      run (chars ++ after') = run (chars ++ after))
    (hfraction : ∀ {chars : List Char}, fraction (chars ++ after) ≤ chars.length →
      (chars = ['.'] → fraction (chars ++ after) ≠ 0) →
      fraction (chars ++ after') = fraction (chars ++ after))
    (hdot : isMark '.' = false) (hmark : ('+' :: '-' :: closers).all (fun c => !isMark c) = true)
    (hopen : chars.getLast?.any isMark = true → isOpen = true)
    (hbound : (stagedNumber run fraction isMark hex offset (chars ++ after)).2 = offset + chars.length) :
    stagedNumber run fraction isMark hex offset (chars ++ after') =
      stagedNumber run fraction isMark hex offset (chars ++ after) := by
  have hdrop {n : Nat} (hn : n ≤ chars.length) (rest : List Char) :
      (chars ++ rest).drop n = chars.drop n ++ rest := List.drop_append_of_le_length hn
  unfold stagedNumber at hbound ⊢
  dsimp only at hbound ⊢
  have hle := Nat.le_trans (length_le_numberEnd _ _ _ _) (Nat.le_of_eq hbound)
  have hdigits : run (chars ++ after) ≤ chars.length := by omega
  rw [hrun hdigits, hdrop hdigits, hdrop hdigits]
  rw [hdrop hdigits] at hbound hle
  generalize run (chars ++ after) = digits at *
  have hpoint : chars.drop digits = ['.'] → fraction (chars.drop digits ++ after) ≠ 0 := by
    -- Without a fraction nothing takes the point, and the number ends in front of it.
    intro hpoint hzero
    have hlength := congrArg List.length hpoint
    rw [List.length_drop, List.length_singleton] at hlength
    rw [hzero] at hbound
    simp only [Nat.add_zero, hdrop hdigits, hpoint, List.singleton_append, markedExponent,
      hdot, Bool.false_eq_true, if_false, bne_self_eq_false, numberEnd_point] at hbound
    omega
  have hrest : fraction (chars.drop digits ++ after) ≤ (chars.drop digits).length := by
    rw [List.length_drop]
    omega
  rw [hfraction hrest hpoint]
  generalize fraction (chars.drop digits ++ after) = point at *
  have hwhole : digits + point ≤ chars.length := by omega
  rw [hdrop hwhole, hdrop hwhole]
  rw [hdrop hwhole] at hbound hle
  have hexponent : markedExponent isMark (chars.drop (digits + point) ++ after) ≤
      (chars.drop (digits + point)).length := by
    rw [List.length_drop]
    omega
  rw [markedExponent_transfer h hmark ?_ hexponent]
  · generalize markedExponent isMark (chars.drop (digits + point) ++ after) = exponent at *
    have hall : digits + point + exponent ≤ chars.length := by omega
    rw [hdrop hall, hdrop hall]
    rw [hdrop hall] at hbound
    refine numberEnd_transfer h (hbound.trans ?_)
    rw [List.length_drop]
    omega
  · intro hlast
    rw [List.getLast?_drop] at hlast
    split at hlast
    · cases hlast
    · exact hopen hlast

theorem decimalNumber_transfer (h : EndsNumber isOpen after')
    (hopen : chars.getLast?.any isDecimalMark = true → isOpen = true)
    (hbound : (decimalNumber (chars ++ after)).2 = chars.length) :
    decimalNumber (chars ++ after') = decimalNumber (chars ++ after) := by
  rw [decimalNumber_eq] at hbound ⊢
  rw [decimalNumber_eq]
  refine stagedNumber_transfer h (digitRun_transfer h) (fractionLength_transfer h) rfl (by decide) hopen ?_
  rw [hbound, Nat.zero_add]

theorem hexNumber_transfer (h : EndsNumber isOpen after')
    (hopen : chars.getLast?.any isHexMark = true → isOpen = true)
    (hbound : (hexNumber (chars ++ after)).2 = 2 + chars.length) :
    hexNumber (chars ++ after') = hexNumber (chars ++ after) := by
  rw [hexNumber_eq] at hbound ⊢
  exact stagedNumber_transfer h (hexRun_transfer h) (fun hbound _ => hexFraction_transfer h hbound)
    rfl (by decide) hopen hbound

theorem binaryNumber_transfer (h : EndsNumber isOpen after')
    (hbound : (binaryNumber (chars ++ after)).2 = 2 + chars.length) :
    binaryNumber (chars ++ after') = binaryNumber (chars ++ after) := by
  unfold binaryNumber at hbound ⊢
  dsimp only at hbound ⊢
  have hle := Nat.le_trans (length_le_numberEnd _ _ _ _) (Nat.le_of_eq hbound)
  have hdigits : hexRun (chars ++ after) ≤ chars.length := by omega
  rw [hexRun_transfer h hdigits, List.drop_append_of_le_length hdigits,
    List.drop_append_of_le_length hdigits]
  rw [List.drop_append_of_le_length hdigits] at hbound
  refine numberEnd_transfer h (hbound.trans ?_)
  rw [List.length_drop]
  omega

theorem number_of_head {c : Char} {rest : List Char} (h : c = '0' → rest.head? ∉ [some 'x', some 'X', some 'b', some 'B']) :
    number (c :: rest) = decimalNumber (c :: rest) := by
  unfold number
  split
  next mark body heq =>
    obtain ⟨rfl, rfl⟩ := List.cons.inj heq
    have hmark := h rfl
    simp only [List.head?_cons, List.mem_cons, Option.some.injEq, List.not_mem_nil, or_false,
      not_or] at hmark
    simp [hmark]
  next => rfl

theorem number_zero (mark : Char) (body : List Char) : number ('0' :: mark :: body) =
    if mark == 'x' || mark == 'X' then hexNumber body
    else if mark == 'b' || mark == 'B' then binaryNumber body
    else decimalNumber ('0' :: mark :: body) := rfl

/-- The mark behind a leading zero belongs to the number. -/
theorem two_le_number {mark : Char} (h : some mark ∈ [some 'x', some 'X', some 'b', some 'B'])
    (body : List Char) : 2 ≤ (number ('0' :: mark :: body)).2 := by
  rw [number_zero]
  split_ifs
  · exact Nat.le_trans (Nat.le_add_right 2 _) (length_le_numberEnd _ _ _ _)
  · exact Nat.le_trans (Nat.le_add_right 2 _) (length_le_numberEnd _ _ _ _)
  · simp_all

theorem endsOpen_singleton (c : Char) : endsOpen [c] = isDecimalMark c := by
  unfold endsOpen
  split
  next heq => cases heq
  next => rfl

theorem endsOpen_of_head {c : Char} (hc : c ≠ '0') (rest : List Char) :
    endsOpen (c :: rest) = (c :: rest).getLast?.any isDecimalMark := by
  unfold endsOpen
  split
  next heq => exact absurd (List.cons.inj heq).1 hc
  next => rfl

/-- A number of one character is a decimal one, also behind a zero: no mark of a base follows it. -/
theorem number_singleton_transfer {c : Char} (h : EndsNumber (endsOpen [c]) after')
    (hbound : (number ([c] ++ after)).2 = [c].length) :
    number ([c] ++ after') = number ([c] ++ after) := by
  have hdecimal : number ([c] ++ after) = decimalNumber ([c] ++ after) := by
    refine number_of_head fun hc hmem => ?_
    cases after with
    | nil => simp at hmem
    | cons mark body =>
      subst hc
      have htwo := two_le_number hmem body
      rw [List.singleton_append] at hbound
      rw [hbound] at htwo
      exact absurd htwo (by decide)
  have hdecimal' : number ([c] ++ after') = decimalNumber ([c] ++ after') := by
    refine number_of_head fun hc hmem => ?_
    cases after' with
    | nil => simp at hmem
    | cons mark body =>
      exact of_decide_eq_false (h.false_of_head
        (p := fun c => decide (some c ∈ [some 'x', some 'X', some 'b', some 'B'])) (by decide) mark rfl) hmem
  rw [hdecimal] at hbound ⊢
  rw [hdecimal']
  rw [endsOpen_singleton] at h
  exact decimalNumber_transfer h id hbound

/-- Behind a zero the next character says which base the number has. -/
theorem number_zero_transfer {mark : Char} {body : List Char}
    (h : EndsNumber (endsOpen ('0' :: mark :: body)) after')
    (hbound : (number ('0' :: mark :: body ++ after)).2 = ('0' :: mark :: body).length) :
    number ('0' :: mark :: body ++ after') = number ('0' :: mark :: body ++ after) := by
  have hnumber (rest : List Char) : number ('0' :: mark :: body ++ rest) =
      if mark == 'x' || mark == 'X' then hexNumber (body ++ rest)
      else if mark == 'b' || mark == 'B' then binaryNumber (body ++ rest)
      else decimalNumber ('0' :: mark :: body ++ rest) := number_zero mark (body ++ rest)
  have hopen : endsOpen ('0' :: mark :: body) =
      if mark == 'x' || mark == 'X' then body.getLast?.any isHexMark
      else if mark == 'b' || mark == 'B' then false
      else ('0' :: mark :: body).getLast?.any isDecimalMark := rfl
  have hlength : ('0' :: mark :: body).length = 2 + body.length := by
    rw [List.length_cons, List.length_cons, Nat.add_comm 2]
  rw [hopen] at h
  rw [hnumber] at hbound ⊢
  rw [hnumber]
  split_ifs at h hbound ⊢
  · exact hexNumber_transfer h id (hbound.trans hlength)
  · exact binaryNumber_transfer h (hbound.trans hlength)
  · exact decimalNumber_transfer h id hbound

/-- A number that ends in front of one text ends in front of every other one that does not go on with it. -/
theorem number_transfer (h : EndsNumber (endsOpen chars) after') (hpos : chars ≠ [])
    (hbound : (number (chars ++ after)).2 = chars.length) :
    number (chars ++ after') = number (chars ++ after) := by
  match chars, hpos with
  | [c], _ => exact number_singleton_transfer h hbound
  | c :: mark :: body, _ =>
    by_cases hc : c = '0'
    · subst hc
      exact number_zero_transfer h hbound
    · have hdecimal (rest : List Char) : number (c :: mark :: body ++ rest) =
          decimalNumber (c :: mark :: body ++ rest) := number_of_head fun heq => absurd heq hc
      rw [hdecimal] at hbound ⊢
      rw [hdecimal]
      rw [endsOpen_of_head hc] at h
      exact decimalNumber_transfer h id hbound

end Transfer

end AdviceMigration.Source
