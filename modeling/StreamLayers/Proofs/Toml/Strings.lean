import StreamLayers.Toml.Printer
import StreamLayers.Toml.Scalar
import Mathlib.Tactic.SplitIfs

/-!
Strings survive being written: whichever of the four forms the printer picks, the reader takes the
delimiters for what they are, undoes every escape and gives back the string, whatever its characters
are. What follows the string must not begin with a quote, since quotes in a row would be read as one
delimiter.
-/

namespace StreamLayers.Toml

@[simp] theorem before?_some (c : Char) (s rest : List Char) :
    before? (some c) (some (s, rest)) = some (c :: s, rest) := rfl

/-! Escapes -/

/-- The two hexadecimal digits of a control character give it back. -/
theorem numbered?_hexDigit {c : Char} (h : c.toNat < 32 ∨ c.toNat = 127) :
    numbered? ['0', '0', hexDigit (c.toNat / 16), hexDigit (c.toNat % 16)] = some c := by
  have hall : ∀ n < 128, n < 32 ∨ n = 127 →
      numbered? ['0', '0', hexDigit (n / 16), hexDigit (n % 16)] = some (Char.ofNat n) := by
    decide +kernel
  have hc := hall c.toNat (by omega) h
  rwa [Char.ofNat_toNat] at hc

/-- The ways to write a character. -/
inductive Escaped (long : Bool) (c : Char) : Prop
  | letter (e : Char) (h : letterEscape? e = some c) (text : escape long c = ['\\', e])
  | number (h : c.toNat < 32 ∨ c.toNat = 127) (text : escape long c =
      ['\\', 'u', '0', '0', hexDigit (c.toNat / 16), hexDigit (c.toNat % 16)])
  | plain (h : isPlain c = true ∨ long = true ∧ c = '\n') (hback : c ≠ '\\')
      (text : escape long c = [c])

theorem escaped (long : Bool) (c : Char) : Escaped long c := by
  have hof {n : Nat} (h : c.toNat = n) : c = Char.ofNat n := by rw [← h, Char.ofNat_toNat]
  by_cases hbell : c.toNat = 8
  · exact .letter 'b' (by simp [letterEscape?, hof hbell]) (by simp [escape, hbell])
  by_cases htab : c = '\t'
  · exact .letter 't' (by simp [letterEscape?, htab]) (by simp [escape, htab])
  by_cases hline : c = '\n'
  · cases hlong : long with
    | false => exact .letter 'n' (by simp [letterEscape?, hline]) (by simp [escape, hline])
    | true => exact .plain (.inr ⟨rfl, hline⟩) (by simp [hline]) (by simp [escape, hline])
  by_cases hfeed : c.toNat = 12
  · exact .letter 'f' (by simp [letterEscape?, hof hfeed]) (by simp [escape, hfeed, htab, hline])
  by_cases hreturn : c = '\r'
  · exact .letter 'r' (by simp [letterEscape?, hreturn]) (by simp [escape, hreturn])
  by_cases hback : c = '\\'
  · exact .letter '\\' (by simp [letterEscape?, hback]) (by simp [escape, hback])
  by_cases hcontrol : c.toNat < 32 ∨ c.toNat = 127
  · exact .number hcontrol
      (by simp [escape, hbell, htab, hline, hfeed, hreturn, hback, hcontrol])
  · have hplain : isPlain c = true := by
      simp [isPlain]
      omega
    exact .plain (.inl hplain) hback
      (by simp [escape, hbell, htab, hline, hfeed, hreturn, hback, hcontrol])

theorem mem_of_letterEscape? {e c : Char} (h : letterEscape? e = some c) :
    e ∈ ['"', '\\', 'b', 't', 'n', 'f', 'r'] := by
  unfold letterEscape? at h
  grind

/-! Strings of one line -/

theorem basicString_letter {e c : Char} (h : letterEscape? e = some c) (text : List Char) :
    basicString ('\\' :: e :: text) = before? (some c) (basicString text) := by
  have hmem := mem_of_letterEscape? h
  simp only [List.mem_cons, List.not_mem_nil, or_false] at hmem
  rcases hmem with rfl | rfl | rfl | rfl | rfl | rfl | rfl <;> simp [basicString, h]

/-- What stands for a character reads as that character. -/
theorem basicString_escape {c : Char} (hquote : c ≠ '"') (text : List Char) :
    basicString (escape false c ++ text) = before? (some c) (basicString text) := by
  cases escaped false c with
  | letter e h heq => rw [heq]; exact basicString_letter h text
  | number h heq => simp [heq, basicString, numbered?_hexDigit h]
  | plain h hback heq =>
    have hplain : plain? c = some c := by simpa [plain?] using h
    rw [heq, List.singleton_append, basicString.eq_def]
    split <;> simp_all

theorem basicString_escapeAll (cs rest : List Char) :
    basicString (escapeAll false 0 cs ++ '"' :: rest) = some (cs, rest) := by
  induction cs with
  | nil => simp [escapeAll, basicString]
  | cons c cs ih =>
    by_cases hquote : c = '"'
    · simp [escapeAll, hquote, basicString, letterEscape?, ih]
    · simp [escapeAll, hquote, basicString_escape hquote, ih]

theorem literalString_append {cs : List Char} (hplain : ∀ c ∈ cs, isPlain c = true ∧ c ≠ '\'')
    (rest : List Char) : literalString (cs ++ '\'' :: rest) = some (cs, rest) := by
  induction cs with
  | nil => simp [literalString]
  | cons c cs ih =>
    obtain ⟨⟨hc, hquote⟩, hcs⟩ := List.forall_mem_cons.1 hplain
    have hstep : literalString (c :: (cs ++ '\'' :: rest)) =
        before? (plain? c) (literalString (cs ++ '\'' :: rest)) := by
      rw [literalString.eq_def]
      split <;> simp_all
    simp [hstep, ih hcs, plain?, hc]

/-! Long strings -/

/-- What ends a long string in quotes `q`, and does not go on with one. -/
def longTail (q : Char) (rest : List Char) : List Char := q :: q :: q :: rest

theorem longEnd?_longTail {q : Char} {rest : List Char} (hrest : rest.head? ≠ some q) :
    longEnd? q (longTail q rest) = some ([], rest) ∧
      longEnd? q (q :: longTail q rest) = some ([q], rest) ∧
      longEnd? q (q :: q :: longTail q rest) = some ([q, q], rest) := by
  rcases rest with _ | ⟨d, _ | ⟨e, rest⟩⟩
  · simp [longEnd?, longTail]
  · have hd : d ≠ q := by simpa using hrest
    simp [longEnd?, longTail, hd]
  · have hd : d ≠ q := by simpa using hrest
    simp [longEnd?, longTail, hd]

theorem longEnd?_of_first {q c : Char} (h : c ≠ q) (text : List Char) :
    longEnd? q (c :: text) = none := by
  rcases text with _ | ⟨d, _ | ⟨e, text⟩⟩ <;> simp [longEnd?, h]

theorem longEnd?_of_second {q c : Char} (h : c ≠ q) (d : Char) (text : List Char) :
    longEnd? q (d :: c :: text) = none := by
  rcases text with _ | ⟨e, text⟩ <;> simp [longEnd?, h]

theorem longEnd?_of_third {q c : Char} (h : c ≠ q) (d e : Char) (text : List Char) :
    longEnd? q (d :: e :: c :: text) = none := by
  simp [longEnd?, h]

/-- A character that stands for itself in a long string. -/
theorem longString_plain {q c : Char} {escapes : Bool} {text : List Char}
    (hend : longEnd? q (c :: text) = none) (hescape : escapes = true → c ≠ '\\')
    (hplain : isPlain c = true ∨ c = '\n') :
    longString q escapes false (c :: text) = before? (some c) (longString q escapes false text) := by
  have hreturn : c ≠ '\r' := by
    rintro rfl
    revert hplain
    decide
  have hself : (if c = '\n' then some c else plain? c) = some c := by
    split
    · rfl
    · simp [plain?, hplain.resolve_right ‹_›]
  rw [longString.eq_def]
  simp only [Bool.false_and, Bool.false_eq_true, if_false, hend]
  have : ¬ (escapes && decide (c = '\\')) = true := by simpa using hescape
  rw [if_neg this, if_neg hreturn, hself]

/-- A letter behind a backslash. -/
theorem longString_letter {e c : Char} (h : letterEscape? e = some c) (text : List Char) :
    longString '"' true false ('\\' :: e :: text) =
      before? (some c) (longString '"' true false text) := by
  have hmem := mem_of_letterEscape? h
  rw [longString.eq_def]
  simp only [List.mem_cons, List.not_mem_nil, or_false] at hmem
  rcases hmem with rfl | rfl | rfl | rfl | rfl | rfl | rfl <;>
    simp [longEnd?_of_first, newline?, skipBlanks, isBlank, h]

theorem longString_escape {c : Char} (hquote : c ≠ '"') (text : List Char) :
    longString '"' true false (escape true c ++ text) =
      before? (some c) (longString '"' true false text) := by
  cases escaped true c with
  | letter e h heq => rw [heq]; exact longString_letter h text
  | number h heq =>
    rw [heq, longString.eq_def]
    simp [longEnd?_of_first, newline?, skipBlanks, isBlank, numbered?_hexDigit h]
  | plain h hback heq =>
    have hplain : isPlain c = true ∨ c = '\n' := by simpa using h
    rw [heq]
    exact longString_plain (longEnd?_of_first hquote text) (fun _ => hback) hplain

theorem longString_end {q c : Char} {escapes : Bool} {text : List Char}
    {found : List Char × List Char} (hend : longEnd? q (c :: text) = some found) :
    longString q escapes false (c :: text) = some found := by
  rw [longString.eq_def]
  simp [hend]

/-- Where a quote may not stand, or does not, something else comes first. -/
theorem escapeAll_first {long : Bool} {c : Char} {room : Nat} (h : c ≠ '"' ∨ room = 0)
    (cs : List Char) : ∃ d text, escapeAll long room (c :: cs) = d :: text ∧ d ≠ '"' := by
  by_cases hquote : c = '"'
  · obtain rfl : room = 0 := h.resolve_left (not_not_intro hquote)
    simp [escapeAll, hquote]
  · cases escaped long c with
    | letter e _ heq => simp [escapeAll, hquote, heq]
    | number _ heq => simp [escapeAll, hquote, heq]
    | plain _ _ heq => simp [escapeAll, hquote, heq]

/-- A quote that is not escaped, in front of what is not the end. -/
theorem longString_quote {text : List Char} (hend : longEnd? '"' ('"' :: text) = none) :
    longString '"' true false ('"' :: text) = before? (some '"') (longString '"' true false text) :=
  longString_plain hend (by simp) (.inl (by decide))

/-- After at most two quotes that are not escaped, either another character comes or the text is at its
end: no three of them look like the delimiter. -/
theorem longEnd?_quote {room : Nat} (hroom : room ≤ 1) {cs : List Char} (hcs : cs ≠ [])
    (hlast : room = 1 → cs ≠ ['"']) (rest : List Char) :
    longEnd? '"' ('"' :: (escapeAll true room cs ++ rest)) = none := by
  rcases cs with _ | ⟨c, cs⟩
  · exact absurd rfl hcs
  by_cases hfirst : c ≠ '"' ∨ room = 0
  · obtain ⟨d, text, heq, hd⟩ := escapeAll_first hfirst cs
    rw [heq]
    exact longEnd?_of_second hd _ _
  · have hsecond : c = '"' ∧ room = 1 := by
      constructor
      · exact Decidable.byContradiction fun h => hfirst (.inl h)
      · omega
    obtain ⟨rfl, rfl⟩ := hsecond
    rcases cs with _ | ⟨d, cs⟩
    · exact absurd rfl (hlast rfl)
    obtain ⟨e, text, heq, he⟩ : ∃ e text, escapeAll true 0 (d :: cs) = e :: text ∧ e ≠ '"' :=
      escapeAll_first (.inr rfl) cs
    have hmore : escapeAll true 1 ('"' :: d :: cs) = '"' :: e :: text := by
      simp [escapeAll, ← heq]
    rw [hmore]
    exact longEnd?_of_third he _ _ _

theorem longString_escapeAll {rest : List Char} (hrest : rest.head? ≠ some '"') {room : Nat}
    (hroom : room ≤ 2) (cs : List Char) :
    longString '"' true false (escapeAll true room cs ++ longTail '"' rest) = some (cs, rest) := by
  obtain ⟨hnone, hone, htwo⟩ := longEnd?_longTail hrest
  induction cs generalizing room with
  | nil => exact longString_end hnone
  | cons c cs ih =>
    by_cases hquote : c = '"'
    · subst hquote
      rcases room with _ | room
      · have hletter : letterEscape? '"' = some '"' := by simp [letterEscape?]
        simp [escapeAll, longString_letter hletter, ih]
      · have hmore : escapeAll true (room + 1) ('"' :: cs) = '"' :: escapeAll true room cs := by
          simp [escapeAll]
        rw [hmore, List.cons_append]
        by_cases hnil : cs = []
        · subst hnil
          exact longString_end hone
        by_cases hlast : room = 1 ∧ cs = ['"']
        · obtain ⟨rfl, rfl⟩ := hlast
          exact longString_end htwo
        · have hend := longEnd?_quote (by omega : room ≤ 1) hnil (fun h heq => hlast ⟨h, heq⟩)
            (longTail '"' rest)
          rw [longString_quote hend, ih (by omega), before?_some]
    · simp [escapeAll, hquote, longString_escape hquote, ih]

theorem longString_append {rest : List Char} (hrest : rest.head? ≠ some '\'') {cs : List Char}
    (htriple : hasTriple '\'' cs = false) (hplain : ∀ c ∈ cs, isPlain c = true ∨ c = '\n') :
    longString '\'' false false (cs ++ longTail '\'' rest) = some (cs, rest) := by
  obtain ⟨hnone, hone, htwo⟩ := longEnd?_longTail hrest
  induction cs with
  | nil => exact longString_end hnone
  | cons c cs ih =>
    obtain ⟨hc, hcs⟩ := List.forall_mem_cons.1 hplain
    have hlater : hasTriple '\'' cs = false := by
      rcases cs with _ | ⟨d, _ | ⟨e, es⟩⟩
      · rfl
      · rfl
      · simp only [hasTriple, Bool.or_eq_false_iff] at htriple
        exact htriple.2
    have hgoes (hend : longEnd? '\'' (c :: (cs ++ longTail '\'' rest)) = none) :
        longString '\'' false false (c :: cs ++ longTail '\'' rest) = some (c :: cs, rest) := by
      have hstep : longString '\'' false false (c :: (cs ++ longTail '\'' rest)) =
          before? (some c) (longString '\'' false false (cs ++ longTail '\'' rest)) :=
        longString_plain hend (by simp) hc
      rw [List.cons_append, hstep, ih hlater hcs, before?_some]
    by_cases hquote : c = '\''
    · subst hquote
      rcases cs with _ | ⟨d, ds⟩
      · exact longString_end hone
      by_cases hd : d = '\''
      · subst hd
        rcases ds with _ | ⟨e, es⟩
        · exact longString_end htwo
        · have he : e ≠ '\'' := by
            rintro rfl
            simp [hasTriple] at htriple
          exact hgoes (longEnd?_of_third he _ _ _)
      · exact hgoes (longEnd?_of_second hd _ _)
    · exact hgoes (longEnd?_of_first hquote _)

/-! The choice of a form -/

/-- A character that need not be escaped stands for itself, or ends a line. -/
theorem isPlain_of_not_needsEscape {c : Char} (h : needsEscape c = false) :
    isPlain c = true ∨ c = '\n' := by
  simp only [needsEscape, isPlain, Bool.or_eq_false_iff, Bool.and_eq_false_imp, decide_eq_false_iff_not,
    decide_eq_true_eq, Bool.or_eq_true, Bool.and_eq_true] at h ⊢
  by_cases ht : c = '\t'
  · simp [ht]
  by_cases hn : c = '\n'
  · simp [hn]
  · simp [ht, hn] at h ⊢
    omega

theorem of_formOf_literal {cs : List Char} (h : formOf cs = .literal) :
    ∀ c ∈ cs, isPlain c = true ∧ c ≠ '\'' := by
  unfold formOf at h
  dsimp only at h
  split_ifs at h with hescape _ _ hform
  intro c hc
  simp only [Bool.and_eq_true, Bool.not_eq_true', List.contains_eq_mem, decide_eq_false_iff_not] at hform
  simp only [Bool.not_eq_true, List.any_eq_false] at hescape
  refine ⟨(isPlain_of_not_needsEscape (by simpa using hescape c hc)).resolve_right ?_, ?_⟩
  · rintro rfl
    exact hform.2 hc
  · rintro rfl
    exact hform.1 hc

theorem of_formOf_longLiteral {cs : List Char} (h : formOf cs = .longLiteral) :
    hasTriple '\'' cs = false ∧ ∀ c ∈ cs, isPlain c = true ∨ c = '\n' := by
  unfold formOf at h
  dsimp only at h
  split_ifs at h with hescape _ _ _ _ htriple
  simp only [Bool.not_eq_true, List.any_eq_false] at hescape
  exact ⟨by simpa using htriple,
    fun c hc => isPlain_of_not_needsEscape (by simpa using hescape c hc)⟩

theorem skipNewline_cons {c : Char} (hfeed : c ≠ '\n') (hreturn : c ≠ '\r') (text : List Char) :
    skipNewline (c :: text) = c :: text := by
  unfold skipNewline newline?
  split <;> simp_all

/-- What stands before the text of a long string is skipped, and no more than that. -/
theorem skipNewline_start {cs body : List Char}
    (hbody : ∀ c text, body = c :: text → c ≠ '\r' ∧ (c = '\n' → '\n' ∈ cs))
    {q : Char} (hfeed : q ≠ '\n') (hreturn : q ≠ '\r') (rest : List Char) :
    skipNewline ((if cs.contains '\n' then ['\n'] else []) ++ body ++ q :: rest) =
      body ++ q :: rest := by
  by_cases hlines : '\n' ∈ cs
  · simp [hlines, skipNewline, newline?]
  · simp only [List.contains_eq_mem, hlines, decide_false, Bool.false_eq_true, if_false,
      List.nil_append]
    rcases body with _ | ⟨c, text⟩
    · exact skipNewline_cons hfeed hreturn rest
    · obtain ⟨hc, hline⟩ := hbody c text rfl
      exact skipNewline_cons (fun h => hlines (hline h)) hc _

/-- An escape shows no end of a line that is not there. -/
theorem escapeAll_start {cs text : List Char} {c : Char} {room : Nat}
    (h : escapeAll true room cs = c :: text) : c ≠ '\r' ∧ (c = '\n' → '\n' ∈ cs) := by
  rcases cs with _ | ⟨d, cs⟩
  · simp [escapeAll] at h
  by_cases hquote : d = '"'
  · rcases room with _ | room <;> simp [escapeAll, hquote] at h <;> simp [← h.1]
  · simp only [escapeAll, hquote, if_false] at h
    cases escaped true d with
    | letter e _ heq =>
      obtain ⟨rfl, -⟩ : '\\' = c ∧ _ := by simpa [heq] using h
      simp
    | number _ heq =>
      obtain ⟨rfl, -⟩ : '\\' = c ∧ _ := by simpa [heq] using h
      simp
    | plain hplain _ heq =>
      obtain ⟨rfl, -⟩ : d = c ∧ _ := by simpa [heq] using h
      constructor
      · rintro rfl
        exact absurd hplain (by decide)
      · rintro rfl
        simp

/-- A string of one line is not taken for a long one. -/
theorem string?_short {q : Char} {body rest : List Char}
    (hbody : ∀ c text, body = c :: text → c ≠ q) (hrest : rest.head? ≠ some q) :
    string? (q :: (body ++ q :: rest)) = shortString? (q :: (body ++ q :: rest)) := by
  unfold string?
  rcases body with _ | ⟨c, text⟩
  · split <;> simp_all
  · have hc := hbody c text rfl
    split <;> simp_all

/-- A string that was written reads as itself. -/
theorem string?_string (s : String) {rest : List Char} (hdouble : rest.head? ≠ some '"')
    (hsingle : rest.head? ≠ some '\'') :
    string? ((string s).toList ++ rest) = some (s.toList, rest) := by
  unfold string
  generalize s.toList = cs
  cases hform : formOf cs with
  | basic =>
    have hfirst : ∀ c text, escapeAll false 0 cs = c :: text → c ≠ '"' := by
      intro c text heq
      rcases cs with _ | ⟨d, cs⟩
      · cases heq
      obtain ⟨e, more, hmore, he⟩ : ∃ e more, escapeAll false 0 (d :: cs) = e :: more ∧ e ≠ '"' :=
        escapeAll_first (.inr rfl) cs
      obtain ⟨rfl, -⟩ := List.cons_eq_cons.1 (heq.symm.trans hmore)
      exact he
    have hshort := string?_short hfirst hdouble
    simp [hform, StringForm.delimiter, StringForm.isLong, StringForm.hasEscapes, hshort,
      shortString?, basicString_escapeAll]
  | literal =>
    have hplain := of_formOf_literal hform
    have hfirst : ∀ c text, cs = c :: text → c ≠ '\'' := by
      intro c text heq
      exact (hplain c (by simp [heq])).2
    have hshort := string?_short hfirst hsingle
    simp [hform, StringForm.delimiter, StringForm.isLong, StringForm.hasEscapes, hshort,
      shortString?, literalString_append hplain]
  | longBasic =>
    have hstart : ∀ c text, escapeAll true 2 cs = c :: text → c ≠ '\r' ∧ (c = '\n' → '\n' ∈ cs) :=
      fun _ _ => escapeAll_start
    have hskip := skipNewline_start hstart (q := '"') (by decide) (by decide) ('"' :: '"' :: rest)
    have hread := longString_escapeAll hdouble Nat.le.refl cs
    simp_all [StringForm.delimiter, StringForm.isLong, StringForm.hasEscapes, string?, longTail]
  | longLiteral =>
    obtain ⟨htriple, hplain⟩ := of_formOf_longLiteral hform
    have hstart : ∀ c text, cs = c :: text → c ≠ '\r' ∧ (c = '\n' → '\n' ∈ cs) := by
      intro c text heq
      have hc := hplain c (by simp [heq])
      constructor
      · rintro rfl
        exact absurd hc (by decide)
      · rintro rfl
        simp [heq]
    have hskip := skipNewline_start hstart (q := '\'') (by decide) (by decide) ('\'' :: '\'' :: rest)
    have hread := longString_append hsingle htriple hplain
    simp_all [StringForm.delimiter, StringForm.isLong, StringForm.hasEscapes, string?, longTail]

end StreamLayers.Toml
