import Mathlib.Tactic.Common
import Mathlib.Algebra.Order.Ring.Nat
import Mathlib.Tactic.Ring

/-!
# Byte strings and decimal numerals
-/

namespace Text

abbrev Byte := UInt8
abbrev Bytes := List Byte

def ascii (s : String) : Bytes := s.toList.map fun c => UInt8.ofNat c.toNat

theorem nil_intercalate (ts : List Bytes) : ([] : Bytes).intercalate ts = ts.flatten := by
  cases ts with
  | nil => rfl
  | cons t rest =>
    induction rest generalizing t with
    | nil => simp [List.intercalate]
    | cons u rest ih => rw [List.intercalate_cons_cons, ih u]; simp

theorem intercalate_append_one (sep : Bytes) (ts : List Bytes) (t : Bytes) :
    sep.intercalate (ts ++ [t]) = if ts = [] then t else sep.intercalate ts ++ (sep ++ t) := by
  cases ts with
  | nil => simp
  | cons u rest =>
    rw [if_neg (List.cons_ne_nil _ _)]
    induction rest generalizing u with
    | nil => simp [List.intercalate_cons_cons]
    | cons v rest ih =>
      rw [List.cons_append, List.cons_append, List.intercalate_cons_cons, ← List.cons_append, ih v,
        List.intercalate_cons_cons]
      simp only [List.append_assoc]

theorem mem_of_mem_intercalate {α : Type} {sep : List α} {ts : List (List α)} {b : α} (h : b ∈ sep.intercalate ts) :
    b ∈ sep ∨ ∃ t ∈ ts, b ∈ t := by
  induction ts with
  | nil => cases h
  | cons t rest ih =>
    cases rest with
    | nil => exact .inr ⟨t, List.mem_cons_self .., by simpa using h⟩
    | cons u rest =>
      rw [List.intercalate_cons_cons, List.mem_append, List.mem_append] at h
      rcases h with (ht | hsep) | hrest
      · exact .inr ⟨t, List.mem_cons_self .., ht⟩
      · exact .inl hsep
      · rcases ih hrest with hsep | ⟨v, hv, hb⟩
        · exact .inl hsep
        · exact .inr ⟨v, List.mem_cons_of_mem _ hv, hb⟩

def isDigit (b : Byte) : Bool := 48 ≤ b && b ≤ 57

/-! ### Decimal numerals -/

def decimal (n : ℕ) : Bytes := (Nat.toDigits 10 n).map fun c => UInt8.ofNat c.toNat

def readDigitsFrom (acc : ℕ) (t : Bytes) : ℕ := t.foldl (fun n b => 10 * n + (b.toNat - 48)) acc
def readDigits (t : Bytes) : ℕ := readDigitsFrom 0 t

def intText (z : ℤ) : Bytes := if z < 0 then 45 :: decimal z.natAbs else decimal z.natAbs

theorem toNat_digit_byte {c : Char} (h : c.isDigit = true) :
    (UInt8.ofNat c.toNat).toNat = c.toNat ∧ isDigit (UInt8.ofNat c.toNat) = true := by
  simp only [Char.isDigit, Bool.and_eq_true, decide_eq_true_eq, ge_iff_le, UInt32.le_iff_toNat_le] at h
  have hlo : 48 ≤ c.toNat := h.1
  have hhi : c.toNat ≤ 57 := h.2
  have hlt : c.toNat < 2 ^ 8 := by omega
  have hn : (UInt8.ofNat c.toNat).toNat = c.toNat := UInt8.toNat_ofNat_of_lt' hlt
  refine ⟨hn, ?_⟩
  simp only [isDigit, UInt8.le_iff_toNat_le, hn, Bool.and_eq_true, decide_eq_true_eq]
  exact ⟨hlo, hhi⟩

theorem decimal_isDigit (n : ℕ) : ∀ b ∈ decimal n, isDigit b = true := by
  intro b hb
  obtain ⟨c, hc, rfl⟩ := List.mem_map.mp hb
  exact (toNat_digit_byte (Nat.isDigit_of_mem_toDigits (by decide) (by decide) hc)).2

theorem decimal_ne_nil (n : ℕ) : decimal n ≠ [] := by
  simp [decimal, Nat.toDigits_ne_nil]

theorem decimal_length_le_iff (n k : ℕ) (hk : 0 < k) : (decimal n).length ≤ k ↔ n < 10 ^ k := by
  rw [decimal, List.length_map]
  exact Nat.length_toDigits_le_iff (by decide) hk

theorem readDigitsFrom_map_digits (l : List Char) (hl : ∀ c ∈ l, c.isDigit = true) (acc : ℕ) :
    readDigitsFrom acc (l.map fun c => UInt8.ofNat c.toNat) = Nat.ofDigitChars 10 l acc := by
  induction l generalizing acc with
  | nil => simp [readDigitsFrom]
  | cons c cs ih =>
    have hc := (toNat_digit_byte (hl c (List.mem_cons_self ..))).1
    have hcs := ih (fun x hx => hl x (List.mem_cons_of_mem _ hx)) (10 * acc + (c.toNat - 48))
    have hzero : '0'.toNat = 48 := rfl
    rw [Nat.ofDigitChars_cons, hzero]
    simpa only [readDigitsFrom, List.map_cons, List.foldl_cons, hc] using hcs

theorem readDigits_decimal (n : ℕ) : readDigits (decimal n) = n := by
  rw [readDigits, decimal, readDigitsFrom_map_digits, Nat.ofDigitChars_ten_toDigits]
  intro c hc
  exact Nat.isDigit_of_mem_toDigits (by decide) (by decide) hc

theorem readDigitsFrom_append (acc : ℕ) (a b : Bytes) :
    readDigitsFrom acc (a ++ b) = readDigitsFrom (readDigitsFrom acc a) b := by
  simp only [readDigitsFrom, List.foldl_append]

theorem readDigitsFrom_eq (acc : ℕ) (t : Bytes) :
    readDigitsFrom acc t = acc * 10 ^ t.length + readDigits t := by
  induction t generalizing acc with
  | nil => simp [readDigits, readDigitsFrom]
  | cons b t ih =>
    have h0 := ih (10 * 0 + (b.toNat - 48))
    have h1 := ih (10 * acc + (b.toNat - 48))
    simp only [readDigits, readDigitsFrom, List.foldl_cons, List.length_cons] at h0 h1 ⊢
    rw [h0, h1]
    ring

theorem readDigits_append (a b : Bytes) :
    readDigits (a ++ b) = readDigits a * 10 ^ b.length + readDigits b := by
  rw [readDigits, readDigitsFrom_append, readDigitsFrom_eq]
  rfl

theorem readDigits_zeros (k : ℕ) : readDigits (List.replicate k 48) = 0 := by
  induction k with
  | zero => rfl
  | succ k ih => simpa [readDigits, readDigitsFrom, List.replicate_succ] using ih

end Text
