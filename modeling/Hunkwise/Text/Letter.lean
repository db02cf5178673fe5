/-! Letters, the places of a text. A letter is a character, or a half of a surrogate pair that
stands alone. Halves come into a text through escapes and through the bytes of a request; text that is
written out in UTF-8 has none. -/

namespace Hunkwise

inductive Letter where
  | char (c : Char)
  /-- The code point `0xD800 + i`. -/
  | half (i : Fin 0x800)
  deriving DecidableEq, Repr

namespace Letter

instance : Coe Char Letter := ⟨.char⟩

def code : Letter → Nat
  | char c => c.toNat
  | half i => 0xD800 + i.val

def ofCode (n : Nat) : Letter :=
  if h : 0xD800 ≤ n ∧ n < 0xE000 then .half ⟨n - 0xD800, by omega⟩ else .char (Char.ofNat n)

theorem code_ofCode_half {n : Nat} (h : 0xD800 ≤ n ∧ n < 0xE000) : (ofCode n).code = n := by
  simp only [ofCode, h, and_self, dite_true, code]
  omega

def char? : Letter → Option Char
  | char c => some c
  | half _ => none

def isHalf (l : Letter) : Bool := l.char?.isNone

def isHigh (l : Letter) : Bool := 0xD800 ≤ l.code && l.code < 0xDC00

def isLow (l : Letter) : Bool := 0xDC00 ≤ l.code && l.code < 0xE000

def pair (high low : Letter) : Letter :=
  .char (Char.ofNat (0x10000 + (high.code - 0xD800) * 0x400 + (low.code - 0xDC00)))

def isDigit : Letter → Bool
  | char c => c.isDigit
  | half _ => false

def digitValue (l : Letter) : Nat := l.code - 48

end Letter

end Hunkwise
