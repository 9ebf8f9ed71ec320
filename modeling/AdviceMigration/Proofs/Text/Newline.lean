import AdviceMigration.Text.Newline
import Mathlib.Data.List.Infix

/-!
# Line breaks of one style

A text whose line breaks are all of one style is found again when its line breaks are made bare and then written in the style of the first one. It can be made bare piece by piece, as long as no piece ends inside a line break.
-/

namespace AdviceMigration.Text

/-! ### Piece by piece -/

theorem unifyChars_cons {c : Char} {rest : List Char} (h : c ≠ '\r' ∨ rest.head? ≠ some '\n') :
    unifyChars (c :: rest) = c :: unifyChars rest := by
  rw [unifyChars]
  rintro after rfl rfl
  simp at h

theorem getLast?_cons {c d : Char} {rest : List Char} (h : (c :: rest).getLast? ≠ some d) :
    rest.getLast? ≠ some d := by
  cases rest with
  | nil => exact nofun
  | cons e rest => rwa [List.getLast?_cons_cons] at h

/-- A carriage return at the end of a piece is no part of a line break at the start of the next one. -/
theorem unifyChars_append {before after : List Char}
    (h : before.getLast? ≠ some '\r' ∨ after.head? ≠ some '\n') :
    unifyChars (before ++ after) = unifyChars before ++ unifyChars after := by
  fun_induction unifyChars before with
  | case1 => rfl
  | case2 rest ih =>
    rw [List.cons_append, List.cons_append, unifyChars, ih, List.cons_append]
    exact h.imp_left fun hlast => getLast?_cons (getLast?_cons hlast)
  | case3 c rest hnot ih =>
    rw [List.cons_append, unifyChars_cons, ih (h.imp_left getLast?_cons), List.cons_append]
    by_cases hc : c = '\r'
    · refine .inr fun hhead => ?_
      cases rest with
      | nil => exact h.elim (fun hlast => hlast (hc ▸ rfl)) fun hafter => hafter hhead
      | cons d rest => exact hnot rest hc (congrArg (· :: rest) (Option.some.inj hhead))
    · exact .inl hc

/-! ### One style -/

/-- Whether all line breaks of a text are of one style. -/
def NewlineStyle.Uniform : NewlineStyle → List Char → Prop
  | lf, chars => ¬ ['\r', '\n'] <:+: chars
  | crlf, chars => ∀ before after, chars = before ++ '\n' :: after → before.getLast? = some '\r'

theorem NewlineStyle.Uniform.of_not_mem {chars : List Char} (h : '\r' ∉ chars) :
    NewlineStyle.lf.Uniform chars :=
  fun hpair => h (hpair.subset List.mem_cons_self)

theorem unifyChars_of_lf {chars : List Char} (h : NewlineStyle.lf.Uniform chars) :
    unifyChars chars = chars ∧ NewlineStyle.detect chars = .lf := by
  fun_induction unifyChars chars with
  | case1 => exact ⟨rfl, rfl⟩
  | case2 rest => exact absurd (List.prefix_append ['\r', '\n'] rest).isInfix h
  | case3 c rest hnot ih =>
    obtain ⟨hrest, hdetect⟩ := ih fun hpair => h (List.infix_cons hpair)
    refine ⟨by rw [hrest], ?_⟩
    unfold NewlineStyle.detect
    split
    next => cases ‹c :: rest = []›
    next heq =>
      cases heq
      exact absurd rfl (hnot _ rfl)
    next => rfl
    next heq =>
      cases heq
      exact hdetect

/-- What follows the first character of such a text is of the same style, unless the two belong together. -/
theorem NewlineStyle.Uniform.of_cons {c : Char} {rest : List Char}
    (h : NewlineStyle.crlf.Uniform (c :: rest)) (hrest : rest.head? ≠ some '\n') :
    c ≠ '\n' ∧ NewlineStyle.crlf.Uniform rest := by
  constructor
  · rintro rfl
    exact nomatch h [] rest rfl
  · intro before after heq
    cases before with
    | nil => exact absurd (heq ▸ rfl) hrest
    | cons d before => exact List.getLast?_cons_cons ▸ h (c :: d :: before) after (heq ▸ rfl)

theorem expand_unifyChars_of_crlf {chars : List Char} (h : NewlineStyle.crlf.Uniform chars) :
    (unifyChars chars).flatMap (fun c => if c = '\n' then ['\r', '\n'] else [c]) = chars ∧
      ('\n' ∈ chars → NewlineStyle.detect chars = .crlf) := by
  fun_induction unifyChars chars with
  | case1 => exact ⟨rfl, nofun⟩
  | case2 rest ih =>
    have hrest : rest.head? ≠ some '\n' := by
      intro hhead
      obtain ⟨after, rfl⟩ := List.head?_eq_some_iff.1 hhead
      cases h ['\r', '\n'] after rfl
    have hfeed : NewlineStyle.crlf.Uniform rest := by
      intro before after heq
      cases before with
      | nil => exact absurd (heq ▸ rfl) hrest
      | cons d before =>
        have hlast := h ('\r' :: '\n' :: d :: before) after (heq ▸ rfl)
        rwa [List.getLast?_cons_cons, List.getLast?_cons_cons] at hlast
    exact ⟨by simp [(ih hfeed).1], fun _ => rfl⟩
  | case3 c rest hnot ih =>
    have hrest : rest.head? ≠ some '\n' := by
      intro hhead
      obtain ⟨after, rfl⟩ := List.head?_eq_some_iff.1 hhead
      have hlast : c = '\r' := by simpa using h [c] after rfl
      exact hnot after hlast rfl
    obtain ⟨hc, huniform⟩ := h.of_cons hrest
    obtain ⟨hexpand, hdetect⟩ := ih huniform
    refine ⟨by simp [hc, hexpand], fun hmem => ?_⟩
    unfold NewlineStyle.detect
    split
    next => cases ‹c :: rest = []›
    next => rfl
    next heq =>
      cases heq
      exact absurd rfl hc
    next heq =>
      cases heq
      exact hdetect ((List.mem_cons.1 hmem).resolve_left (Ne.symm hc))

/-- A text of one style is written again from its bare line breaks. -/
theorem expand_unifyNewlines {style : NewlineStyle} {text : String}
    (h : style.Uniform text.toList) :
    (NewlineStyle.detect text.toList).expand (unifyNewlines text) = text := by
  have hbare (hlf : NewlineStyle.lf.Uniform text.toList) :
      (NewlineStyle.detect text.toList).expand (unifyNewlines text) = text := by
    obtain ⟨hunify, hdetect⟩ := unifyChars_of_lf hlf
    rw [hdetect, unifyNewlines, hunify, String.ofList_toList]
    rfl
  cases style with
  | lf => exact hbare h
  | crlf =>
    obtain ⟨hexpand, hdetect⟩ := expand_unifyChars_of_crlf h
    by_cases hfeed : '\n' ∈ text.toList
    · rw [hdetect hfeed, unifyNewlines]
      simp only [NewlineStyle.expand, String.toList_ofList, hexpand, String.ofList_toList]
    · exact hbare fun hpair => hfeed (hpair.subset (by simp))

theorem unifyChars_lineBreak (style : NewlineStyle) (rest : List Char) :
    unifyChars (style.text.toList ++ rest) = '\n' :: unifyChars rest := by
  cases style with
  | lf => exact unifyChars_cons (.inl (by decide))
  | crlf => rfl

/-- A piece that ends at a line break of the style of the text can be made bare by itself. -/
theorem unifyChars_append_lineBreak {style : NewlineStyle} {chars before after : List Char}
    (h : style.Uniform chars) (hpiece : before ++ (style.text.toList ++ after) <:+: chars) :
    unifyChars (before ++ (style.text.toList ++ after)) =
      unifyChars before ++ '\n' :: unifyChars after := by
  rw [unifyChars_append, unifyChars_lineBreak]
  cases style with
  | crlf =>
    have hreturn : (NewlineStyle.crlf.text.toList ++ after).head? = some '\r' := rfl
    exact .inr (by rw [hreturn]; decide)
  | lf =>
    refine .inl fun hlast => h ?_
    obtain ⟨front, rfl⟩ := List.getLast?_eq_some_iff.1 hlast
    refine List.IsInfix.trans ⟨front, after, ?_⟩ hpiece
    rw [List.append_assoc, List.append_assoc]
    rfl

/-- Text on one line is still there when the line breaks around it are written in a style. -/
theorem infix_expand {chars text : List Char} (h : chars <:+: text) (hline : '\n' ∉ chars)
    (style : NewlineStyle) : chars <:+: (style.expand (String.ofList text)).toList := by
  obtain ⟨before, after, rfl⟩ := h
  have hsame : (chars.flatMap fun c => if c = '\n' then ['\r', '\n'] else [c]) = chars := by
    refine (List.flatMap_congr fun c hc => if_neg ?_).trans (List.flatMap_singleton' chars)
    rintro rfl
    exact hline hc
  cases style with
  | lf =>
    rw [NewlineStyle.expand, String.toList_ofList]
    exact ⟨before, after, rfl⟩
  | crlf =>
    rw [NewlineStyle.expand, String.toList_ofList, String.toList_ofList, List.flatMap_append,
      List.flatMap_append, hsame]
    exact ⟨_, _, rfl⟩

end AdviceMigration.Text
