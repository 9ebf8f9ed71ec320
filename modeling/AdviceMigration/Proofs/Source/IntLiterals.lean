import AdviceMigration.Proofs.Source.Scanning
import AdviceMigration.Source.Annot
import Mathlib.Data.Nat.Digits.Defs

/-!
# Values of integer literals

What a token that is an integer literal stands for. `Numeral` says of characters that they are the digits of a number in a radix, highest first, and `IntValue` which texts have a 32-bit value and which one. The scanner takes more than that: letters that are no digits behind the mark of a binary number, the digits 8 and 9 behind a leading zero, a mark without digits. These have no value. It takes no sign, though, so that the signs a numeral may have elsewhere do not matter here.
-/

namespace AdviceMigration.Source

open AdviceMigration.Text

/-! ### Numerals -/

/-- The digits up to fifteen, letters in either case. -/
def digitTable : List (Char × Nat) :=
  ['0', '1', '2', '3', '4', '5', '6', '7', '8', '9', 'a', 'b', 'c', 'd', 'e', 'f'].zipIdx ++
    ['A', 'B', 'C', 'D', 'E', 'F'].zipIdx 10

/-- Whether a character is a digit of a radix, and which one. -/
def IsDigit (radix : Nat) (c : Char) (digit : Nat) : Prop := digit < radix ∧ (c, digit) ∈ digitTable

/-- Whether characters are the digits of a number in a radix, at least one, highest first. -/
def Numeral (radix : Nat) (numeral : List Char) (value : Nat) : Prop :=
  numeral ≠ [] ∧ ∃ digits, List.Forall₂ (IsDigit radix) numeral digits ∧
    value = Nat.ofDigits radix digits.reverse

/-- The marks in front of the numerals of other radixes. -/
def radixMarks : List (List Char × Nat) :=
  [(['0', 'x'], 16), (['0', 'X'], 16), (['0', 'b'], 2), (['0', 'B'], 2), (['0'], 8)]

/-- Whether an integer literal without its underscores has a value, and which one: a decimal numeral below 2^31 without a leading zero, or a mark and a numeral below 2^32, which is read in two's complement. -/
inductive IntValue : List Char → Int → Prop where
  | decimal {numeral : List Char} {value : Nat} (hnumeral : Numeral 10 numeral value)
      (hzero : numeral = ['0'] ∨ numeral.head? ≠ some '0') (hvalue : value < 2 ^ 31) :
      IntValue numeral value
  | marked {mark : List Char} {radix : Nat} {numeral : List Char} {value : Nat}
      (hmark : (mark, radix) ∈ radixMarks) (hnumeral : Numeral radix numeral value)
      (hvalue : value < 2 ^ 32) : IntValue (mark ++ numeral) (BitVec.ofNat 32 value).toInt

/-- The value of a letter or digit, up to 35. -/
def alphanumericValue? (c : Char) : Option Nat :=
  if c.isDigit then some (c.toNat - '0'.toNat)
  else if 'a' ≤ c && c ≤ 'z' then some (c.toNat - 'a'.toNat + 10)
  else if 'A' ≤ c && c ≤ 'Z' then some (c.toNat - 'A'.toNat + 10)
  else none

theorem digitValue?_eq (radix : Nat) (c : Char) :
    digitValue? radix c = (alphanumericValue? c).filter (· < radix) := by
  unfold digitValue? alphanumericValue?
  split_ifs <;> simp_all [Option.filter]

theorem alphanumericValue?_of_mem {c : Char} {digit : Nat} (h : (c, digit) ∈ digitTable) :
    alphanumericValue? c = some digit := by
  have hall : digitTable.all (fun entry => alphanumericValue? entry.1 == some entry.2) = true := by
    decide
  exact beq_iff_eq.1 (List.all_eq_true.1 hall _ h)

/-- The characters from `first` on are digits if as many entries of the table say so. -/
theorem mem_digitTable_of_range {c first : Char} {high count : Nat}
    (htable : (List.range count).all
      (fun n => digitTable.contains (Char.ofNat (first.toNat + n), high + n)) = true)
    (hfirst : first.toNat ≤ c.toNat) (hcount : c.toNat - first.toNat < count) :
    (c, c.toNat - first.toNat + high) ∈ digitTable := by
  have h := List.all_eq_true.1 htable _ (List.mem_range.2 hcount)
  rwa [List.contains_iff_mem, Nat.add_sub_cancel' hfirst, Char.ofNat_toNat, Nat.add_comm] at h

theorem mem_digitTable {c : Char} {digit : Nat} (h : alphanumericValue? c = some digit)
    (hlt : digit < 16) : (c, digit) ∈ digitTable := by
  unfold alphanumericValue? at h
  split_ifs at h with hdigit hlower hupper
  · obtain ⟨hfirst, hlast⟩ := Bool.and_eq_true _ _ ▸ hdigit
    have hlast : c.toNat ≤ '0'.toNat + 9 := Char.le_def.1 (of_decide_eq_true hlast)
    cases h
    exact @mem_digitTable_of_range c _ 0 10 (by decide)
      (Char.le_def.1 (of_decide_eq_true hfirst)) (by omega)
  · obtain ⟨hfirst, -⟩ := Bool.and_eq_true _ _ ▸ hlower
    cases h
    exact @mem_digitTable_of_range c _ 10 6 (by decide)
      (Char.le_def.1 (of_decide_eq_true hfirst)) (by omega)
  · obtain ⟨hfirst, -⟩ := Bool.and_eq_true _ _ ▸ hupper
    cases h
    exact @mem_digitTable_of_range c _ 10 6 (by decide)
      (Char.le_def.1 (of_decide_eq_true hfirst)) (by omega)

theorem digitValue?_eq_some {radix : Nat} (hradix : radix ≤ 16) {c : Char} {digit : Nat} :
    digitValue? radix c = some digit ↔ IsDigit radix c digit := by
  rw [digitValue?_eq, Option.filter_eq_some_iff, decide_eq_true_iff, and_comm]
  refine and_congr_right fun hlt => ⟨fun h => mem_digitTable h (Nat.lt_of_lt_of_le hlt hradix), ?_⟩
  exact alphanumericValue?_of_mem

theorem digitsValue?_eq_some {radix : Nat} (hradix : radix ≤ 16) (high value : Nat) (numeral : List Char) :
    digitsValue? radix high numeral = some value ↔ ∃ digits, List.Forall₂ (IsDigit radix) numeral digits ∧
      value = high * radix ^ digits.length + Nat.ofDigits radix digits.reverse := by
  induction numeral generalizing high with
  | nil => simp [digitsValue?, eq_comm]
  | cons c rest ih =>
    rw [digitsValue?]
    constructor
    · intro h
      split at h
      next digit hdigit =>
        obtain ⟨digits, hdigits, rfl⟩ := (ih _).1 h
        refine ⟨digit :: digits, .cons ((digitValue?_eq_some hradix).1 hdigit) hdigits, ?_⟩
        rw [List.reverse_cons, Nat.ofDigits_append, Nat.ofDigits_singleton, List.length_reverse,
          List.length_cons, Nat.pow_succ]
        ring
      next => cases h
    · rintro ⟨_, hdigits, rfl⟩
      obtain ⟨digit, digits, hdigit, hrest, rfl⟩ := List.forall₂_cons_left_iff.1 hdigits
      rw [(digitValue?_eq_some hradix).2 hdigit]
      refine (ih _).2 ⟨digits, hrest, ?_⟩
      rw [List.reverse_cons, Nat.ofDigits_append, Nat.ofDigits_singleton, List.length_reverse,
        List.length_cons, Nat.pow_succ]
      ring

theorem numeralValue?_eq_some {radix : Nat} (hradix : radix ≤ 16) {numeral : List Char} {value : Nat} :
    numeralValue? radix numeral = some value ↔ Numeral radix numeral value := by
  cases numeral with
  | nil => simp [numeralValue?, Numeral]
  | cons c rest =>
    rw [numeralValue?, digitsValue?_eq_some hradix, Numeral]
    · simp
    · exact List.cons_ne_nil _ _

/-! ### The text of an integer literal -/

theorem ofWord_ne_int (word : String) : TokenKind.ofWord word ≠ .literal .int := by
  unfold TokenKind.ofWord
  split_ifs
  · simp
  · simp
  · split <;> simp

theorem numberEnd_int {hex floating : Bool} {length n : Nat} {rest : List Char}
    (h : numberEnd hex floating length rest = (.int, n)) : floating = false ∧ n = length := by
  unfold numberEnd at h
  split at h <;> split_ifs at h <;> simp_all

/-- An integer literal has no fraction and no exponent. -/
theorem stagedNumber_int {run fraction : List Char → Nat} {isMark : Char → Bool} {hex : Bool}
    {offset n : Nat} {cs : List Char} (h : stagedNumber run fraction isMark hex offset cs = (.int, n)) :
    n = offset + run cs := by
  obtain ⟨hfloating, rfl⟩ := numberEnd_int h
  have hnone := bne_eq_false_iff_eq.1 hfloating
  omega

/-- A run of characters has none of those that end it. -/
theorem not_mem_run {p : Char → Bool} {c : Char} (hc : p c = false) (cs : List Char) :
    c ∉ cs.take (cs.takeWhile p).length := by
  rw [← List.prefix_iff_eq_take.1 (List.takeWhile_prefix p)]
  intro hmem
  rw [List.mem_takeWhile_imp hmem] at hc
  cases hc

section

variable {sign : Char} (hsign : sign ∈ ['+', '-'])
include hsign

theorem sign_not_mem_digits (cs : List Char) : sign ∉ cs.take (digitRun cs) :=
  not_mem_run (eq_false_of_all (p := fun c => c.isDigit || c == '_') (by decide) hsign) cs

theorem sign_not_mem_hexDigits (cs : List Char) : sign ∉ cs.take (hexRun cs) :=
  not_mem_run (eq_false_of_all (p := fun c => isHexDigit c || c == '_') (by decide) hsign) cs

theorem sign_not_mem_marked {mark : Char} (hmark : mark ∈ ['x', 'X', 'b', 'B']) (body : List Char) :
    sign ∉ ('0' :: mark :: body).take (2 + hexRun body) := by
  rw [Nat.add_comm, List.take_succ_cons, List.take_succ_cons, List.mem_cons, List.mem_cons, not_or, not_or]
  refine ⟨?_, ?_, sign_not_mem_hexDigits hsign body⟩
  · rintro rfl
    exact absurd hsign (by decide)
  · rintro rfl
    simp only [List.mem_cons, List.not_mem_nil, or_false] at hsign hmark
    rcases hsign with rfl | rfl <;> simp at hmark

/-- The characters that a number takes if it is an integer have no sign among them. -/
theorem sign_not_mem_number {cs : List Char} {n : Nat} (h : number cs = (.int, n)) : sign ∉ cs.take n := by
  have hdecimal {cs : List Char} (h : decimalNumber cs = (.int, n)) : sign ∉ cs.take n := by
    rw [decimalNumber_eq] at h
    rw [stagedNumber_int h, Nat.zero_add]
    exact sign_not_mem_digits hsign cs
  unfold number at h
  split at h
  next mark body =>
    split_ifs at h with hhex hbinary
    · rw [hexNumber_eq] at h
      rw [stagedNumber_int h]
      have hmark : mark = 'x' ∨ mark = 'X' := by simpa using hhex
      exact sign_not_mem_marked hsign (by simp [or_assoc.symm, hmark]) body
    · rw [(numberEnd_int h).2]
      have hmark : mark = 'b' ∨ mark = 'B' := by simpa using hbinary
      exact sign_not_mem_marked hsign (by simp [hmark]) body
    · exact hdecimal h
  next => exact hdecimal h

/-- An integer literal has no sign in its text. -/
theorem IsToken.sign_not_mem {text : String} (h : IsToken (.literal .int) text) : sign ∉ text.toList := by
  obtain ⟨after, c, rest, hchars, hscan⟩ := h.exists_scans (by rintro ⟨⟩)
  change text.toList = c :: rest at hchars
  obtain ⟨-, htoken⟩ := scanToken_of_scan hscan
  unfold scanToken at htoken
  split_ifs at htoken
  · simp only [Except.ok.injEq, Lexeme.token.injEq] at htoken
    exact absurd htoken.1 (ofWord_ne_int _)
  · simp only [Except.ok.injEq, Lexeme.token.injEq, TokenKind.literal.injEq] at htoken
    obtain ⟨hkind, htake⟩ := htoken
    rw [← htake]
    exact sign_not_mem_number hsign (Prod.ext hkind rfl)
  · split at htoken
    · split at htoken <;> simp at htoken
    · split at htoken <;> simp at htoken
  · split at htoken <;> simp at htoken
  · split at htoken <;> simp at htoken

end

/-! ### Values -/

theorem signed32?_eq_some {value : Nat} {result : Int} :
    signed32? value = some result ↔ value < 2 ^ 32 ∧ (BitVec.ofNat 32 value).toInt = result := by
  have hlow : Nat.pow 2 31 = 2147483648 := rfl
  have hhigh : Nat.pow 2 32 = 4294967296 := rfl
  have hint : Int.pow 2 32 = 4294967296 := rfl
  rw [signed32?, hlow, hhigh, hint, BitVec.toInt_eq_toNat_cond, BitVec.toNat_ofNat]
  constructor
  · intro h
    split_ifs at h with hpositive hnegative
    · cases h
      refine ⟨by omega, ?_⟩
      rw [Nat.mod_eq_of_lt (by omega), if_pos (by omega)]
    · cases h
      refine ⟨hnegative, ?_⟩
      rw [Nat.mod_eq_of_lt hnegative, if_neg (by omega)]
      rfl
  · rintro ⟨hvalue, rfl⟩
    rw [Nat.mod_eq_of_lt hvalue]
    by_cases hpositive : value < 2147483648
    · rw [if_pos hpositive, if_pos (by omega)]
    · rw [if_neg hpositive, if_pos (show value < 4294967296 from hvalue), if_neg (by omega)]
      rfl

theorem unsignedValue?_eq_numeralValue? {radix : Nat} {numeral : List Char} (hsign : '+' ∉ numeral) :
    unsignedValue? radix numeral = numeralValue? radix numeral := by
  unfold unsignedValue?
  split
  · simp at hsign
  · rfl

theorem decimalValue?_eq_some {numeral : List Char} (hplus : '+' ∉ numeral) (hminus : '-' ∉ numeral)
    {result : Int} : decimalValue? numeral = some result ↔
      ∃ value, Numeral 10 numeral value ∧ value < 2 ^ 31 ∧ (value : Int) = result := by
  have hbound : Nat.pow 2 31 = 2 ^ 31 := rfl
  unfold decimalValue?
  split
  · simp at hminus
  · rw [unsignedValue?_eq_numeralValue? hplus, hbound]
    simp only [← numeralValue?_eq_some (by decide : 10 ≤ 16)]
    cases numeralValue? 10 numeral with
    | none => simp
    | some value => simp

/-- A numeral behind the mark of its radix. -/
theorem marked_eq_some {radix : Nat} (hradix : radix ≤ 16) {numeral : List Char} (hplus : '+' ∉ numeral)
    {result : Int} : (unsignedValue? radix numeral).bind signed32? = some result ↔
      ∃ value, Numeral radix numeral value ∧ value < 2 ^ 32 ∧ (BitVec.ofNat 32 value).toInt = result := by
  rw [unsignedValue?_eq_numeralValue? hplus, Option.bind_eq_some_iff]
  simp only [numeralValue?_eq_some hradix, signed32?_eq_some]

/-- The octal numerals behind a zero start with none of the letters that make another mark. -/
theorem Numeral.head_octal {numeral : List Char} {value : Nat} (h : Numeral 8 numeral value) :
    ∃ c rest, numeral = c :: rest ∧ c ∉ ['x', 'X', 'b', 'B'] := by
  obtain ⟨hne, digits, hdigits, -⟩ := h
  obtain ⟨c, rest, rfl⟩ := List.exists_cons_of_ne_nil hne
  obtain ⟨digit, -, hdigit, -, -⟩ := List.forall₂_cons_left_iff.1 hdigits
  refine ⟨c, rest, rfl, fun hmem => ?_⟩
  have hvalue := alphanumericValue?_of_mem hdigit.2
  have hlt := hdigit.1
  simp only [List.mem_cons, List.not_mem_nil, or_false] at hmem
  rcases hmem with rfl | rfl | rfl | rfl <;> cases hvalue <;> omega

/-- What a mark is read by: behind a lone zero comes a character that makes no other mark of it. -/
def Marks (mark numeral : List Char) : Prop :=
  mark = ['0'] → ∃ c rest, numeral = c :: rest ∧ c ∉ ['x', 'X', 'b', 'B']

/-- Characters start with a mark, or are a single zero, or start with another character. -/
theorem radix_cases (chars : List Char) :
    (∃ mark radix numeral, (mark, radix) ∈ radixMarks ∧ chars = mark ++ numeral ∧ Marks mark numeral) ∨
      chars = ['0'] ∨ chars.head? ≠ some '0' := by
  rcases chars with _ | ⟨c, _ | ⟨d, rest⟩⟩
  · exact .inr (.inr (Option.some_ne_none _).symm)
  · by_cases hc : c = '0'
    · exact .inr (.inl (by rw [hc]))
    · exact .inr (.inr (by simpa using hc))
  · by_cases hc : c = '0'
    · subst hc
      by_cases hd : d ∈ ['x', 'X', 'b', 'B']
      · refine .inl ⟨['0', d], if d = 'x' ∨ d = 'X' then 16 else 2, rest, ?_, rfl, by simp [Marks]⟩
        simp only [List.mem_cons, List.not_mem_nil, or_false] at hd
        rcases hd with rfl | rfl | rfl | rfl <;> decide
      · exact .inl ⟨['0'], 8, d :: rest, by decide, rfl, fun _ => ⟨d, rest, rfl, hd⟩⟩
    · exact .inr (.inr (by simpa using hc))

theorem numberValue?_marked {mark numeral : List Char} {radix : Nat} (hmark : (mark, radix) ∈ radixMarks)
    (hnumeral : Marks mark numeral) :
    numberValue? (mark ++ numeral) = (unsignedValue? radix numeral).bind signed32? := by
  simp only [radixMarks, List.mem_cons, Prod.mk.injEq, List.not_mem_nil, or_false] at hmark
  rcases hmark with ⟨rfl, rfl⟩ | ⟨rfl, rfl⟩ | ⟨rfl, rfl⟩ | ⟨rfl, rfl⟩ | ⟨rfl, rfl⟩
  · rfl
  · rfl
  · rfl
  · rfl
  · obtain ⟨c, rest, rfl, hc⟩ := hnumeral rfl
    simp only [List.mem_cons, List.not_mem_nil, or_false, not_or] at hc
    obtain ⟨hx, hX, hb, hB⟩ := hc
    rw [List.singleton_append, numberValue?]
    · simpa using hx
    · simpa using hX
    · simpa using hb
    · simpa using hB

theorem numberValue?_decimal {chars : List Char} (h : chars = ['0'] ∨ chars.head? ≠ some '0') :
    numberValue? chars = decimalValue? chars := by
  rcases h with rfl | hhead
  · rfl
  · unfold numberValue?
    split
    all_goals first | rfl | exact absurd rfl hhead

/-- The value of an integer literal without signs. -/
theorem numberValue?_eq_some {chars : List Char} (hplus : '+' ∉ chars) (hminus : '-' ∉ chars)
    {result : Int} : numberValue? chars = some result ↔ IntValue chars result := by
  have hradix {mark : List Char} {radix : Nat} (h : (mark, radix) ∈ radixMarks) : radix ≤ 16 := by
    simp only [radixMarks, List.mem_cons, Prod.mk.injEq, List.not_mem_nil, or_false] at h
    omega
  have hbehind {mark numeral : List Char} (h : '+' ∉ mark ++ numeral) : '+' ∉ numeral :=
    fun hmem => h (List.mem_append_right _ hmem)
  constructor
  · intro h
    rcases radix_cases chars with ⟨mark, radix, numeral, hmark, rfl, hmarks⟩ | hzero
    · rw [numberValue?_marked hmark hmarks] at h
      obtain ⟨value, hnumeral, hvalue, rfl⟩ := (marked_eq_some (hradix hmark) (hbehind hplus)).1 h
      exact .marked hmark hnumeral hvalue
    · rw [numberValue?_decimal hzero] at h
      obtain ⟨value, hnumeral, hvalue, rfl⟩ := (decimalValue?_eq_some hplus hminus).1 h
      exact .decimal hnumeral hzero hvalue
  · intro h
    cases h with
    | decimal hnumeral hzero hvalue =>
      rw [numberValue?_decimal hzero]
      exact (decimalValue?_eq_some hplus hminus).2 ⟨_, hnumeral, hvalue, rfl⟩
    | @marked mark radix numeral _ hmark hnumeral hvalue =>
      have hmarks : Marks mark numeral := by
        rintro rfl
        have hoctal : radix = 8 := by simpa [radixMarks] using hmark
        subst hoctal
        exact hnumeral.head_octal
      rw [numberValue?_marked hmark hmarks]
      exact (marked_eq_some (hradix hmark) (hbehind hplus)).2 ⟨_, hnumeral, hvalue, rfl⟩

/-- Every integer literal, on its own or in parentheses, stands for exactly the values that its text has. -/
theorem ElementValue.int?_eq_some_iff {text : String} (htoken : IsToken (.literal .int) text)
    {value : ElementValue} (hvalue : value = .expr (.literal ⟨.int, text⟩) ∨
      value = .expr (.paren (.literal ⟨.int, text⟩))) (result : Int) :
    value.int? = some result ↔ IntValue (text.toList.filter (· != '_')) result := by
  have hsign {sign : Char} (hsign : sign ∈ ['+', '-']) : sign ∉ text.toList.filter (· != '_') :=
    fun h => htoken.sign_not_mem hsign (List.mem_filter.1 h).1
  have hint : value.int? = intValue? text := by rcases hvalue with rfl | rfl <;> rfl
  rw [hint, intValue?]
  exact numberValue?_eq_some (hsign (.head _)) (hsign (.tail _ (.head _)))

/-- The highest bit of a hexadecimal numeral is the sign. -/
theorem int?_eq_some_iff_highestBit : IsToken (.literal .int) "0x8000_0000" ∧
    ((ElementValue.expr (.paren (.literal ⟨.int, "0x8000_0000"⟩))).int? = some (-2147483648) ↔
      IntValue ("0x8000_0000".toList.filter (· != '_')) (-2147483648)) := by
  have htoken : IsToken (.literal .int) "0x8000_0000" := isToken_of_eq rfl rfl rfl
  exact ⟨htoken, ElementValue.int?_eq_some_iff htoken (.inr rfl) _⟩

end AdviceMigration.Source
