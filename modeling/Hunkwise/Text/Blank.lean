import Hunkwise.Text.Basic

/-! White space. `isBlank` holds of the separators of words and of what a blank line is made of;
`isSpace` is the property White_Space, which lacks the four information separators. -/

namespace Hunkwise

def Letter.isSpace (l : Letter) : Bool :=
  let n := l.code
  (9 ≤ n && n ≤ 13) || n == 0x20 || n == 0x85 || n == 0xA0 || n == 0x1680
    || (0x2000 ≤ n && n ≤ 0x200A) || n == 0x2028 || n == 0x2029 || n == 0x202F || n == 0x205F
    || n == 0x3000

def Letter.isBlank (l : Letter) : Bool := l.isSpace || (0x1C ≤ l.code && l.code ≤ 0x1F)

namespace Text

def isBlankLine (s : Text) : Bool := s.letters.all Letter.isBlank

def runs (p : Letter → Bool) : List Letter → List (List Letter)
  | [] => []
  | c :: cs =>
    if p c then runs p cs
    else match cs, runs p cs with
      | d :: _, r :: rs => if p d then [c] :: r :: rs else (c :: r) :: rs
      | _, rs => [c] :: rs

def words (s : Text) : List Text := (runs Letter.isBlank s.letters).map mk

end Text

end Hunkwise
