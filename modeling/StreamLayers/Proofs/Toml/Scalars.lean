import StreamLayers.Proofs.Toml.Strings
import StreamLayers.Toml.Parser

/-!
Plain values survive being written at the end of a line: truth values, strings, and numbers as long as
they fit a signed 64-bit word. The digits of a larger number are written all the same, and are refused
when they are read.
-/

namespace StreamLayers.Toml

/-! Numbers -/

theorem ne_of_isDigit {c d : Char} (hc : c.isDigit = true) (hd : d.isDigit = false) : c ≠ d := by
  rintro rfl
  simp [hc] at hd

/-- The digits of a number: at least one, and no others. -/
theorem toDigits_cons (n : Nat) : ∃ c ds, Nat.toDigits 10 n = c :: ds ∧ c.isDigit = true ∧
    ∀ d ∈ ds, d.isDigit = true := by
  have hdigits : ∀ c ∈ Nat.toDigits 10 n, c.isDigit = true :=
    fun c => Nat.isDigit_of_mem_toDigits (by decide) (by decide)
  rcases hds : Nat.toDigits 10 n with _ | ⟨c, ds⟩
  · exact absurd hds Nat.toDigits_ne_nil
  · rw [hds] at hdigits
    exact ⟨c, ds, rfl, List.forall_mem_cons.1 hdigits⟩

/-- No zero stands in front of other digits. -/
theorem toDigits_zero_cons {n : Nat} {ds : List Char} (h : Nat.toDigits 10 n = '0' :: ds) :
    ds = [] := by
  induction n using Nat.strongRecOn generalizing ds with
  | _ n ih =>
    by_cases hsmall : n < 10
    · simp_all [Nat.toDigits_of_lt_base hsmall]
    · rw [Nat.toDigits_eq_if (by decide), if_neg hsmall] at h
      obtain ⟨c, text, heq, -⟩ := toDigits_cons (n / 10)
      obtain ⟨rfl, -⟩ := List.cons_eq_cons.1 (heq ▸ h)
      have hnil := ih (n / 10) (by omega) heq
      have hone : n / 10 = 0 := by
        have hback := Nat.ofDigitChars_toDigits (b := 10) (n := n / 10) (by decide) (by decide)
        rw [heq, hnil] at hback
        simpa [Nat.ofDigitChars] using hback.symm
      omega

/-- The digits of a number stand for it. -/
theorem decimal_toDigits (n : Nat) : Json.decimal (Nat.toDigits 10 n) = n := by
  have h := Nat.ofDigitChars_toDigits (b := 10) (n := n) (by decide) (by decide)
  rw [Nat.ofDigitChars_eq_foldl] at h
  rw [Json.decimal, Digits.value_eq_foldl, List.foldl_map]
  exact h

/-- Digits up to the end of a line are read together. -/
theorem moreDigits_append {ds : List Char} (hdigits : ∀ c ∈ ds, c.isDigit = true) (rest : List Char) :
    moreDigits Char.isDigit (ds ++ '\n' :: rest) = (ds, '\n' :: rest) := by
  induction ds with
  | nil => simp [moreDigits]
  | cons c ds ih =>
    obtain ⟨hc, hds⟩ := List.forall_mem_cons.1 hdigits
    have hunder : c ≠ '_' := ne_of_isDigit hc (by decide)
    rw [List.cons_append, moreDigits.eq_def]
    split <;> simp_all

theorem whole?_toDigits (n : Nat) (rest : List Char) :
    whole? (Nat.toDigits 10 n ++ '\n' :: rest) = some (Nat.toDigits 10 n, '\n' :: rest) := by
  obtain ⟨c, ds, heq, hc, hds⟩ := toDigits_cons n
  by_cases hzero : c = '0'
  · subst hzero
    simp [heq, toDigits_zero_cons heq, whole?]
  · simp [heq, whole?, digits?, hzero, hc, moreDigits_append hds]

/-- A number without a fraction and without a power is an integer. -/
theorem decimal?_of_whole? {cs whole rest : List Char} {c : Char}
    (hwhole : whole? cs = some (whole, c :: rest)) (hpoint : c ≠ '.') (hpower : c ≠ 'e' ∧ c ≠ 'E') :
    decimal? false cs = (integer? (Json.decimal whole)).map (·, c :: rest) := by
  unfold decimal?
  simp only [hwhole, Option.bind_eq_bind, Option.bind_some]
  split
  · simp_all
  · split
    · simp_all
    · simp_all
    · simp_all

/-- A digit in front makes a number without sign or base, unless it is a zero before a letter. -/
theorem number?_cons {c : Char} (hc : c.isDigit = true) {text : List Char}
    (hbase : c = '0' → text.head? ≠ some 'x' ∧ text.head? ≠ some 'o' ∧ text.head? ≠ some 'b') :
    number? (c :: text) = decimal? false (c :: text) := by
  have hletter : c ≠ 'i' ∧ c ≠ 'n' := ⟨ne_of_isDigit hc (by decide), ne_of_isDigit hc (by decide)⟩
  have hsign : c ≠ '+' ∧ c ≠ '-' := ⟨ne_of_isDigit hc (by decide), ne_of_isDigit hc (by decide)⟩
  unfold number?
  split <;> simp_all [number?.signed]

/-- Behind a field of digits stands another digit or the end of the line. -/
theorem expect?_of_field? {ds rest cs : List Char} (hdigits : ∀ c ∈ ds, c.isDigit = true)
    {n low high v : Nat} (hfield : field? n low high (ds ++ '\n' :: rest) = some (v, cs))
    {mark : Char} (hmark : mark.isDigit = false) (hline : mark ≠ '\n') : expect? mark cs = none := by
  unfold field? at hfield
  simp only [Option.ite_none_right_eq_some, Option.some.injEq, Prod.mk.injEq] at hfield
  obtain ⟨⟨-, hall, -⟩, -, rfl⟩ := hfield
  have hshort : n ≤ ds.length := by
    refine Nat.le_of_not_lt fun hlong => ?_
    obtain ⟨k, hk⟩ : ∃ k, n - ds.length = k + 1 := ⟨n - ds.length - 1, by omega⟩
    have hmem : '\n' ∈ (ds ++ '\n' :: rest).take n := by simp [List.take_append, hk]
    exact absurd (List.all_eq_true.1 hall '\n' hmem) (by decide)
  rw [List.drop_append_of_le_length hshort]
  rcases hrest : ds.drop n with _ | ⟨c, cs⟩
  · simp [expect?, hline.symm]
  · have hc : c.isDigit = true := hdigits c (List.mem_of_mem_drop (by simp [hrest] : c ∈ ds.drop n))
    simp [expect?, ne_of_isDigit hc hmark]

/-- Digits alone are no date and no time. -/
theorem moment?_append {ds : List Char} (hdigits : ∀ c ∈ ds, c.isDigit = true) (rest : List Char) :
    moment? (ds ++ '\n' :: rest) = none := by
  have hdate : date? (ds ++ '\n' :: rest) = none := by
    unfold date?
    cases hfield : field? 4 0 9999 (ds ++ '\n' :: rest) with
    | none => rfl
    | some found =>
      have hmark : expect? '-' found.2 = none :=
        expect?_of_field? hdigits hfield (by decide) (by decide)
      simp [hmark]
  have htime : time? (ds ++ '\n' :: rest) = none := by
    unfold time?
    cases hfield : field? 2 0 23 (ds ++ '\n' :: rest) with
    | none => rfl
    | some found =>
      have hmark : expect? ':' found.2 = none :=
        expect?_of_field? hdigits hfield (by decide) (by decide)
      simp [hmark]
  simp [moment?, hdate, htime]

/-- A number that was written reads as itself, if it fits a signed 64-bit word. -/
theorem numeric?_toDigits (n : Nat) (rest : List Char) :
    numeric? (Nat.toDigits 10 n ++ '\n' :: rest) = (integer? n).map (·, '\n' :: rest) := by
  have hdecimal := decimal?_of_whole? (whole?_toDigits n rest) (by decide) (by decide)
  rw [decimal_toDigits] at hdecimal
  obtain ⟨c, ds, heq, hc, hds⟩ := toDigits_cons n
  have hmoment := moment?_append (List.forall_mem_cons.2 ⟨hc, hds⟩) rest
  have hnumber : number? (c :: (ds ++ '\n' :: rest)) = decimal? false (c :: (ds ++ '\n' :: rest)) := by
    refine number?_cons hc fun hzero => ?_
    subst hzero
    simp [toDigits_zero_cons heq]
  rw [heq, List.cons_append] at hdecimal ⊢
  rw [List.cons_append] at hmoment
  simp [numeric?, hmoment, hnumber, hdecimal]

/-! Plain values -/

/-- Whether a plain value is read back: a number has to fit a signed 64-bit word. -/
def fits : Value → Bool
  | .int n => -(signedLimit : Int) ≤ n && n < signedLimit
  | _ => true

@[simp] theorem fits_nat (n : Nat) : fits (.nat n) = decide (n < signedLimit) := by
  have hlow : -(signedLimit : Int) ≤ n := by omega
  simp [Value.nat, fits, hlow]

@[simp] theorem fits_bool (b : Bool) : fits (.bool b) = true := rfl

@[simp] theorem fits_text (s : String) : fits (.text s) = true := rfl

theorem integer?_eq (n : Int) : integer? n = if fits (.int n) then some (.int n) else none := by
  simp [integer?, fits]

/-- The plain values that settings hold. -/
inductive Setting : Value → Prop
  | bool (b : Bool) : Setting (.bool b)
  | nat (n : Nat) : Setting (.nat n)
  | text (s : String) : Setting (.text s)

/-- The text of a plain value. -/
def plainText (v : Value) : List Char := ((scalar? v).getD "").toList

theorem plainText_nat (n : Nat) : plainText (.nat n) = Nat.toDigits 10 n := by
  simp only [plainText, Value.nat, scalar?, Option.getD_some]
  exact Nat.toList_repr

theorem word?_append (w : String) (v : Value) (rest : List Char) :
    word? w v (w.toList ++ rest) = some (v, rest) := by
  simp [word?, ← String.length_toList]

/-- A string begins with a quote. -/
theorem string_cons (s : String) :
    ∃ q text, (string s).toList = q :: text ∧ (q = '"' ∨ q = '\'') := by
  unfold string
  cases hform : formOf s.toList <;> simp [hform, StringForm.delimiter]

/-- Where a value begins with a digit, it is a number. -/
theorem value_cons_digit {c : Char} (hc : c.isDigit = true) (fuel room : Nat) (text : List Char) :
    value (fuel + 1) room (c :: text) = numeric? (c :: text) := by
  have hother : ['[', '\x7b', '"', '\'', 't', 'f'].all (fun d => !d.isDigit) = true := by decide
  have hne : ∀ d ∈ ['[', '\x7b', '"', '\'', 't', 'f'], c ≠ d :=
    fun d hd => ne_of_isDigit hc (by simpa using List.all_eq_true.1 hother d hd)
  rw [value.eq_def]
  split <;> simp_all

namespace Setting

variable {v : Value}

/-- The text of a plain value does not begin with a blank. -/
theorem plainText_cons (h : Setting v) : ∃ c text, plainText v = c :: text ∧ isBlank c = false := by
  cases h with
  | bool b => cases b <;> simp [plainText, scalar?, isBlank]
  | nat n =>
    obtain ⟨c, ds, heq, hc, -⟩ := toDigits_cons n
    have hspace : c ≠ ' ' := ne_of_isDigit hc (by decide)
    have htab : c ≠ '\t' := ne_of_isDigit hc (by decide)
    exact ⟨c, ds, by rw [plainText_nat, heq], by simp [isBlank, hspace, htab]⟩
  | text s =>
    obtain ⟨q, text, heq, hq⟩ := string_cons s
    refine ⟨q, text, by simp [plainText, scalar?, heq], ?_⟩
    rcases hq with rfl | rfl <;> decide

/-- The text of a plain value reads as the value, if that fits. -/
theorem value_plainText (h : Setting v) (fuel room : Nat) (rest : List Char) :
    value (fuel + 1) room (plainText v ++ '\n' :: rest) =
      if fits v then some (v, '\n' :: rest) else none := by
  cases h with
  | bool b =>
    have hfalse := word?_append "false" (.bool false) ('\n' :: rest)
    have htrue := word?_append "true" (.bool true) ('\n' :: rest)
    cases b <;> simp_all [value, plainText, scalar?, fits]
  | nat n =>
    have hread := numeric?_toDigits n rest
    obtain ⟨c, ds, heq, hc, -⟩ := toDigits_cons n
    rw [plainText_nat, heq, List.cons_append, value_cons_digit hc, ← List.cons_append, ← heq, hread,
      integer?_eq, Value.nat]
    split <;> rfl
  | text s =>
    have hread : string? ((string s).toList ++ '\n' :: rest) = some (s.toList, '\n' :: rest) :=
      string?_string s (by simp) (by simp)
    obtain ⟨q, text, heq, hq⟩ := string_cons s
    rw [heq] at hread
    rcases hq with rfl | rfl <;> simp_all [value, plainText, scalar?, fits]

end Setting

end StreamLayers.Toml
