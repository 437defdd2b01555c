import ZigPsql.Client.Params
import ZigPsql.Postgres.Literals

/-!
# Values as SQL constants

What the {d} text of a number and the quoted text of a string read back as. A
float that does not fit the print buffer becomes a text that is no constant.
-/

namespace Psql
open Text Zig Postgres Scanner

def decimalValue (d : FloatDecimal) : ℚ :=
  signed d.sign (if d.exponent < 0 then d.mantissa / 10 ^ (-d.exponent).toNat
    else d.mantissa * 10 ^ d.exponent.toNat)

/-- The text of a value as QParams renders it, for numbers of any width. -/
def constantText : Value → Bytes
  | .int _ _ v | .comptimeInt v => intText v
  | .float _ v | .comptimeFloat v => v.text
  | .pointer _ _ _ _ bytes => quoted (escaped bytes)
  | .other _ => []

def decimalTokens (d : FloatDecimal) : List Token :=
  if d.fits then signTokens d.sign ++ [.number (decimalBody (decimal d.mantissa) d.exponent)]
  else [.self 40, .word (ascii "float"), .self 41]

def constantTokens : Value → List Token
  | .int _ _ v | .comptimeInt v => signTokens (v < 0) ++ [.number (decimal v.natAbs)]
  | .float _ (.finite d) | .comptimeFloat (.finite d) => decimalTokens d
  | .pointer _ _ _ _ bytes => [.string .plain (doubleQuotes bytes)]
  | _ => []

theorem rendering_eq_constantText {v : Value} {t : Bytes} (h : rendering v = some t) : t = constantText v := by
  unfold rendering at h
  split at h <;> simp_all [constantText]

theorem intText_noNul (z : ℤ) : 0 ∉ intText z := by
  have hdecimal : (0 : Byte) ∉ decimal z.natAbs := fun hmem => absurd (decimal_isDigit _ 0 hmem) (by decide)
  unfold intText
  split
  · simpa using hdecimal
  · exact hdecimal

theorem quotedText_noNul {bytes : Bytes} (h : 0 ∉ bytes) : 0 ∉ quoted (escaped bytes) := by
  have hescaped : 0 ∉ escaped bytes := by
    intro hmem
    obtain ⟨c, hc, hb⟩ := List.mem_flatMap.mp hmem
    split at hb
    · simp at hb
    · rw [List.mem_singleton.mp hb] at h
      exact h hc
  simpa [quoted, quote] using hescaped

/-! ### Decimals -/

theorem digits_zeros (k : ℕ) : ∀ b ∈ List.replicate k (48 : Byte), isDigit b = true := by
  intro b hb
  rw [List.eq_of_mem_replicate hb]
  decide

theorem digits_append {a b : Bytes} (ha : ∀ c ∈ a, isDigit c = true) (hb : ∀ c ∈ b, isDigit c = true) :
    ∀ c ∈ a ++ b, isDigit c = true := by
  intro c hc
  rcases List.mem_append.mp hc with h | h
  · exact ha c h
  · exact hb c h

theorem readDigits_zeros_append (k : ℕ) (t : Bytes) : readDigits (List.replicate k 48 ++ t) = readDigits t := by
  rw [readDigits_append, readDigits_zeros, Nat.zero_mul, Nat.zero_add]

theorem readDigits_append_zeros (t : Bytes) (k : ℕ) : readDigits (t ++ List.replicate k 48) = readDigits t * 10 ^ k := by
  rw [readDigits_append, readDigits_zeros, List.length_replicate, Nat.add_zero]

section
variable (negative : Bool) {digits : Bytes} {exponent : ℤ} (hne : digits ≠ [])
  (hdigits : ∀ b ∈ digits, isDigit b = true)
include hdigits

theorem literal_body_small (hpoint : exponent + digits.length ≤ 0) :
    Literal (signBytes negative ++ decimalBody digits exponent)
      (signTokens negative ++ [.number (decimalBody digits exponent)])
      (.number (signed negative (readDigits digits / 10 ^ (-exponent).toNat))) := by
  have hbody : decimalBody digits exponent =
      [48] ++ 46 :: (List.replicate (-(exponent + digits.length)).toNat 48 ++ digits) := by
    simp [decimalBody, hpoint, ascii]
  have hlit := literal_decimal negative [48] _ (List.cons_ne_nil _ _) (by simp [isDigit])
    (digits_append (digits_zeros (-(exponent + digits.length)).toNat) hdigits)
  have hread : readDigits ([48] ++ (List.replicate (-(exponent + digits.length)).toNat 48 ++ digits)) =
      readDigits digits := by
    rw [show ([48] : Bytes) = List.replicate 1 48 from rfl, readDigits_zeros_append, readDigits_zeros_append]
  have hplaces : (List.replicate (-(exponent + digits.length)).toNat (48 : Byte) ++ digits).length =
      (-exponent).toNat := by
    rw [List.length_append, List.length_replicate]
    omega
  rw [hread, hplaces] at hlit
  rwa [hbody]

include hne

theorem literal_body_whole (he : 0 ≤ exponent) :
    Literal (signBytes negative ++ decimalBody digits exponent)
      (signTokens negative ++ [.number (decimalBody digits exponent)])
      (.number (signed negative (readDigits digits * 10 ^ exponent.toNat))) := by
  have hlen : 0 < digits.length := List.length_pos_iff.mpr hne
  have hbody : decimalBody digits exponent = digits ++ List.replicate exponent.toNat 48 := by
    have hpoint : ¬ exponent + digits.length ≤ 0 := by omega
    have hwhole : (digits.length : ℤ) ≤ exponent + digits.length := by omega
    rw [decimalBody, if_neg hpoint, if_pos hwhole, add_sub_cancel_right]
  have hlit := literal_integer negative (digits ++ List.replicate exponent.toNat 48)
    (List.append_ne_nil_of_left_ne_nil hne _) (digits_append hdigits (digits_zeros _))
  rw [readDigits_append_zeros] at hlit
  rw [hbody]
  exact_mod_cast hlit

theorem literal_body_mixed (he : exponent < 0) (hpoint : 0 < exponent + digits.length) :
    Literal (signBytes negative ++ decimalBody digits exponent)
      (signTokens negative ++ [.number (decimalBody digits exponent)])
      (.number (signed negative (readDigits digits / 10 ^ (-exponent).toNat))) := by
  have hbody : decimalBody digits exponent = digits.take (exponent + digits.length).toNat ++
      46 :: digits.drop (exponent + digits.length).toNat := by
    have hwhole : ¬ (digits.length : ℤ) ≤ exponent + digits.length := by omega
    rw [decimalBody, if_neg (not_le.mpr hpoint), if_neg hwhole, List.append_assoc, List.singleton_append]
  have htake : digits.take (exponent + digits.length).toNat ≠ [] := by
    simp only [ne_eq, List.take_eq_nil_iff, hne, or_false]
    omega
  have hlit := literal_decimal negative _ _ htake (fun b hb => hdigits b (List.mem_of_mem_take hb))
    fun b hb => hdigits b (List.mem_of_mem_drop (i := (exponent + digits.length).toNat) hb)
  have hplaces : (digits.drop (exponent + digits.length).toNat).length = (-exponent).toNat := by
    rw [List.length_drop]
    omega
  rw [List.take_append_drop, hplaces] at hlit
  rwa [hbody]

end

theorem literal_decimalText (d : FloatDecimal) (hfits : d.fits = true) :
    Literal d.text (decimalTokens d) (.number (decimalValue d)) := by
  have hne := decimal_ne_nil d.mantissa
  have hdigits := decimal_isDigit d.mantissa
  have htext : d.text = signBytes d.sign ++ decimalBody (decimal d.mantissa) d.exponent := by
    rw [FloatDecimal.text, if_pos hfits]
    rfl
  have hread := readDigits_decimal d.mantissa
  rw [htext, decimalTokens, if_pos hfits, decimalValue]
  by_cases he : d.exponent < 0
  · rw [if_pos he]
    by_cases hpoint : d.exponent + (decimal d.mantissa).length ≤ 0
    · simpa only [hread] using literal_body_small d.sign hdigits hpoint
    · simpa only [hread] using literal_body_mixed d.sign hne hdigits he (not_le.mp hpoint)
  · rw [if_neg he]
    simpa only [hread] using literal_body_whole d.sign hne hdigits (not_lt.mp he)

/-! ### Numerals read back -/

def signedValue : Bytes → Option ℚ
  | 45 :: t => (numberValue t).map fun q => -q
  | t => numberValue t

theorem signedValue_of_constant {negative : Bool} {t : Bytes} {q : ℚ}
    (h : constant (signTokens negative ++ [.number t]) = some (.number q)) :
    signedValue (signBytes negative ++ t) = some q := by
  cases negative with
  | true =>
    have hmap : (numberValue t).map (fun q => Constant.number (-q)) = some (.number q) := h
    obtain ⟨r, hr, hq⟩ := Option.map_eq_some_iff.mp hmap
    cases hq
    exact congrArg (Option.map _) hr
  | false =>
    have hmap : (numberValue t).map Constant.number = some (.number q) := h
    obtain ⟨r, hr, hq⟩ := Option.map_eq_some_iff.mp hmap
    cases hq
    have hplain : signedValue t = numberValue t := by
      unfold signedValue
      split
      next u =>
        -- a minus sign is no digit
        have hnone : numberValue (45 :: u) = none := rfl
        cases hr.symm.trans hnone
      next => rfl
    exact hplain.trans hr

theorem signedValue_intText (z : ℤ) : signedValue (intText z) = some (z : ℚ) := by
  have htext : intText z = signBytes (z < 0) ++ decimal z.natAbs := by
    by_cases hz : z < 0 <;> simp [signBytes, intText, hz]
  rw [htext]
  exact signedValue_of_constant (literal_intText z).reads

theorem signedValue_decimalText (d : FloatDecimal) :
    signedValue d.text = if d.fits then some (decimalValue d) else none := by
  cases hfits : d.fits with
  | true =>
    have hreads := (literal_decimalText d hfits).reads
    rw [decimalTokens, if_pos hfits] at hreads
    rw [FloatDecimal.text, if_pos hfits]
    exact signedValue_of_constant hreads
  | false =>
    rw [FloatDecimal.text, hfits]
    rfl

theorem decimalText_noNul (d : FloatDecimal) : 0 ∉ d.text := by
  have hdigits : (0 : Byte) ∉ decimal d.mantissa := fun hmem => absurd (decimal_isDigit _ 0 hmem) (by decide)
  have hzeros (k : ℕ) : (0 : Byte) ∉ List.replicate k 48 := fun hmem => absurd (List.eq_of_mem_replicate hmem) (by decide)
  have hsign : 0 ∉ signText d.sign := by cases d.sign <;> decide
  have hstart : (0 : Byte) ∉ ascii "0." := by decide
  have htake (k : ℕ) : (0 : Byte) ∉ (decimal d.mantissa).take k := fun hmem => hdigits (List.mem_of_mem_take hmem)
  have hdrop (k : ℕ) : (0 : Byte) ∉ (decimal d.mantissa).drop k := fun hmem => hdigits (List.mem_of_mem_drop hmem)
  unfold FloatDecimal.text decimalBody
  dsimp only
  split
  · split
    · simp only [List.mem_append, hsign, hstart, hzeros, hdigits, or_self, not_false_eq_true]
    · split
      · simp only [List.mem_append, hsign, hzeros, hdigits, or_self, not_false_eq_true]
      · simp [hsign, htake, hdrop]
  · decide

/-! ### Elements of a value list -/

/-- A finite number, or a string without a zero byte. -/
def sendable : Value → Bool
  | .float _ (.finite _) | .comptimeFloat (.finite _) => true
  | .float _ _ | .comptimeFloat _ => false
  | .pointer _ _ _ _ bytes => 0 ∉ bytes
  | _ => true

/-- The text of the value is one item of a list: a constant, or what stands for a float without room. -/
structure Sent (v : Value) : Prop where
  item : ListItem (constantText v) (constantTokens v)
  value : constantTokens v = placeholder ∨ (constant (constantTokens v)).isSome = true
  noNul : 0 ∉ constantText v

theorem sent_of_literal {v : Value} {c : Constant} (h : Literal (constantText v) (constantTokens v) c)
    (hnul : 0 ∉ constantText v) : Sent v :=
  ⟨h.toListItem, .inr (by rw [h.reads]; rfl), hnul⟩

theorem sent_decimal {v : Value} {d : FloatDecimal} (htext : constantText v = d.text)
    (htokens : constantTokens v = decimalTokens d) : Sent v := by
  cases hfits : d.fits with
  | true =>
    have hlit := literal_decimalText d hfits
    rw [← htext, ← htokens] at hlit
    exact sent_of_literal hlit (by rw [htext]; exact decimalText_noNul d)
  | false =>
    have hplace : constantTokens v = placeholder := by rw [htokens, decimalTokens, hfits]; rfl
    have hfloat : constantText v = ascii "(float)" := by rw [htext, FloatDecimal.text, hfits]; rfl
    refine ⟨?_, .inl hplace, by rw [hfloat]; decide⟩
    rw [hplace, hfloat]
    refine ⟨fun b hb hne => ?_, List.cons_ne_nil _ _, by decide⟩
    have hlex : Lexes true (ascii "(float)") placeholder := rfl
    have hall := lexes_append hlex (lexes_delimiter b hb)
    rwa [delimiterTokens_of_ne hne] at hall

theorem sent_of_sendable {v : Value} (hkind : ∀ type, v ≠ .other type) (hs : sendable v = true) : Sent v := by
  cases v with
  | int signed bits z => exact sent_of_literal (literal_intText z) (intText_noNul z)
  | comptimeInt z => exact sent_of_literal (literal_intText z) (intText_noNul z)
  | float bits x =>
    cases x with
    | finite d => exact sent_decimal rfl rfl
    | inf | nan => cases hs
  | comptimeFloat x =>
    cases x with
    | finite d => exact sent_decimal rfl rfl
    | inf | nan => cases hs
  | pointer size isConst child sentinel bytes =>
    exact sent_of_literal (literal_string bytes) (quotedText_noNul (of_decide_eq_true hs))
  | other type => exact absurd rfl (hkind type)

end Psql
