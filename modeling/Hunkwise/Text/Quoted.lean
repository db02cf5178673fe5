import Hunkwise.Text.Basic
import Hunkwise.Text.Printable

/-! Quoted text. Apostrophes surround a text, or quotation marks when it holds an apostrophe and no
quotation mark; what cannot be shown is written as an escape. -/

namespace Hunkwise.Text

def hexDigit (n : Nat) : Char := if n < 10 then Char.ofNat (48 + n) else Char.ofNat (87 + n)

def hexDigits (n : Nat) : Nat → List Char
  | 0 => []
  | width + 1 => hexDigits (n / 16) width ++ [hexDigit (n % 16)]

/-- One letter between the marks `mark`, where `shown` tells what needs no escape. -/
def quoteLetter (shown : Letter → Bool) (mark : Char) (l : Letter) : List Letter :=
  let escape (cs : List Char) : List Letter := ('\\' :: cs).map .char
  if l = mark ∨ l = '\\' then ['\\', l]
  else if l = '\n' then escape ['n']
  else if l = '\r' then escape ['r']
  else if l = '\t' then escape ['t']
  else if shown l then [l]
  else if l.code < 0x100 then escape ('x' :: hexDigits l.code 2)
  else if l.code < 0x10000 then escape ('u' :: hexDigits l.code 4)
  else escape ('U' :: hexDigits l.code 8)

def quoteWith (shown : Letter → Bool) (s : Text) : Text :=
  let holds (c : Char) : Bool := s.letters.contains (.char c)
  let mark := if holds '\'' && !holds '"' then '"' else '\''
  ⟨.char mark :: s.letters.flatMap (quoteLetter shown mark) ++ [.char mark]⟩

def quote (s : Text) : Text := s.quoteWith isPrintable

def quoteAscii (s : Text) : Text := s.quoteWith fun l => isPrintable l && l.code < 0x80

end Hunkwise.Text
