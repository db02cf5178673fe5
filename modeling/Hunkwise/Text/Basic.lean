import Hunkwise.Text.Letter

/-! Texts: lists of letters. A string is a text without halves. -/

namespace Hunkwise

structure Text where
  letters : List Letter
  deriving DecidableEq, Repr

namespace Text

def ofChars (cs : List Char) : Text := ⟨cs.map .char⟩

def ofString (s : String) : Text := ofChars s.toList

instance : Coe String Text := ⟨ofString⟩

instance : Inhabited Text := ⟨⟨[]⟩⟩

instance : Append Text := ⟨fun s t => ⟨s.letters ++ t.letters⟩⟩

@[simp] theorem letters_append (s t : Text) : (s ++ t).letters = s.letters ++ t.letters := rfl

def length (s : Text) : Nat := s.letters.length

def isEmpty (s : Text) : Bool := s.letters.isEmpty

def intercalate (sep : Text) (ts : List Text) : Text :=
  ⟨sep.letters.intercalate (ts.map letters)⟩

def chars? (s : Text) : Option (List Char) := s.letters.mapM Letter.char?

/-- Without halves, so that bytes can encode it. -/
def isEncodable (s : Text) : Bool := s.letters.all fun l => !l.isHalf

/-- The order of lists of code points: by the first in which they differ, and a beginning of a list
before the list. -/
def codesLe : List Nat → List Nat → Bool
  | [], _ => true
  | _ :: _, [] => false
  | m :: ms, n :: ns => m < n || (m == n && codesLe ms ns)

def le (s t : Text) : Bool := codesLe (s.letters.map Letter.code) (t.letters.map Letter.code)

def ofInt (n : Int) : Text :=
  let digits := Nat.toDigits 10 n.natAbs
  ofChars (if n < 0 then '-' :: digits else digits)

end Text

end Hunkwise
