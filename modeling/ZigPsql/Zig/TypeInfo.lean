import ZigPsql.Zig.Format

/-!
# Types as @typeInfo shows them, and the values of an anytype tuple
-/

namespace Zig
open Text

inductive PointerSize where
  | one | many | slice | c
  deriving DecidableEq, Repr

inductive ZigType where
  | int (signed : Bool) (bits : ℕ)
  | float (bits : ℕ)
  | comptimeInt
  | comptimeFloat
  | bool
  | optional (child : ZigType)
  | enum (name : Bytes)
  | array (len : ℕ) (child : ZigType) (sentinel : Option ℕ)
  | pointer (size : PointerSize) (isConst : Bool) (child : ZigType) (sentinel : Option ℕ)
  | struct (name : Bytes)
  | other (name : Bytes)
  deriving DecidableEq, Repr

def ZigType.u8 : ZigType := .int false 8
def ZigType.constU8Slice : ZigType := .pointer .slice true .u8 none

/-- A tuple element: its type, and its value where a function of the wrapper reads it. The bytes
of a pointer are those it leads to, without the sentinel. -/
inductive Value where
  | int (signed : Bool) (bits : ℕ) (v : ℤ)
  | float (bits : ℕ) (v : FloatValue)
  | comptimeInt (v : ℤ)
  | comptimeFloat (v : FloatValue)
  | pointer (size : PointerSize) (isConst : Bool) (child : ZigType) (sentinel : Option ℕ) (bytes : Bytes)
  | other (type : ZigType)
  deriving DecidableEq

def Value.typeOf : Value → ZigType
  | .int signed bits _ => .int signed bits
  | .float bits _ => .float bits
  | .comptimeInt _ => .comptimeInt
  | .comptimeFloat _ => .comptimeFloat
  | .pointer size isConst child sentinel _ => .pointer size isConst child sentinel
  | .other type => type

end Zig
