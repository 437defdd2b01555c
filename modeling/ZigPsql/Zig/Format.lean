import ZigPsql.Lib.Text

/-!
# The {d} format of std.fmt

A float is printed through the decimal std.fmt derives from it (FloatDecimal: a
sign, a mantissa, a power of ten), the shortest one that reads back as the
float: a negative exponent leaves no zero at the end of the mantissa, and zero
has the exponent zero.
-/

namespace Zig
open Text

structure FloatDecimal where
  sign : Bool
  mantissa : ℕ
  exponent : ℤ
  canonical : exponent < 0 → mantissa % 10 ≠ 0
  zero : mantissa = 0 → exponent = 0
  deriving DecidableEq

inductive FloatValue where
  | finite (d : FloatDecimal)
  | inf (sign : Bool)
  | nan (sign : Bool)
  deriving DecidableEq

def signText (sign : Bool) : Bytes := if sign then [45] else []

/-- The buffer formatFloatValue prints into, whatever the float type. -/
def floatBufferSize : ℕ := 347

def decimalBody (digits : Bytes) (exponent : ℤ) : Bytes :=
  let point := exponent + digits.length
  if point ≤ 0 then ascii "0." ++ List.replicate (-point).toNat 48 ++ digits
  else if digits.length ≤ point then digits ++ List.replicate (point - digits.length).toNat 48
  else digits.take point.toNat ++ [46] ++ digits.drop point.toNat

def FloatDecimal.fits (d : FloatDecimal) : Bool :=
  2 + d.exponent.natAbs + (decimal d.mantissa).length ≤ floatBufferSize

/-- formatDecimal, with formatFloatValue's answer to error.BufferTooSmall. -/
def FloatDecimal.text (d : FloatDecimal) : Bytes :=
  if d.fits then signText d.sign ++ decimalBody (decimal d.mantissa) d.exponent
  else ascii "(float)"

def FloatValue.text : FloatValue → Bytes
  | .finite d => d.text
  | .inf sign => signText sign ++ ascii "inf"
  | .nan sign => signText sign ++ ascii "nan"

theorem decimalBody_ne_nil (digits : Bytes) (exponent : ℤ) (h : digits ≠ []) :
    decimalBody digits exponent ≠ [] := by
  unfold decimalBody
  dsimp only
  split
  · exact List.append_ne_nil_of_right_ne_nil _ h
  · split
    · exact List.append_ne_nil_of_left_ne_nil h _
    · simp

theorem FloatValue.text_ne_nil (x : FloatValue) : x.text ≠ [] := by
  cases x with
  | finite d =>
    simp only [FloatValue.text, FloatDecimal.text]
    split
    · exact List.append_ne_nil_of_right_ne_nil _ (decimalBody_ne_nil _ _ (decimal_ne_nil _))
    · decide
  | inf sign => exact List.append_ne_nil_of_right_ne_nil _ (by decide)
  | nan sign => exact List.append_ne_nil_of_right_ne_nil _ (by decide)

theorem intText_ne_nil (z : ℤ) : intText z ≠ [] := by
  unfold intText
  split
  · exact List.cons_ne_nil _ _
  · exact decimal_ne_nil _

end Zig
