import Hunkwise.Json.Basic

/-! Log levels by name, in any case. A name that is not known means the level of information. -/

namespace Hunkwise

/-- A name that stands for something which is no level. -/
inductive LevelFault where
  | isText
  | isTable
  deriving DecidableEq, Repr

namespace LogLevel

/-- A letter in upper case, as far as the outcome can be plain letters. -/
def upperChar (c : Char) : List Char :=
  if 'a' ≤ c ∧ c ≤ 'z' then [Char.ofNat (c.toNat - 32)]
  else match c with
    | 'ß' => ['S', 'S']
    | 'ı' => ['I']
    | 'ſ' => ['S']
    | 'ﬀ' => ['F', 'F']
    | 'ﬁ' => ['F', 'I']
    | 'ﬂ' => ['F', 'L']
    | 'ﬃ' => ['F', 'F', 'I']
    | 'ﬄ' => ['F', 'F', 'L']
    | 'ﬅ' => ['S', 'T']
    | 'ﬆ' => ['S', 'T']
    | c => [c]

def upper (s : Text) : Text := ⟨s.letters.flatMap fun
  | .char c => (upperChar c).map .char
  | l => [l]⟩

def named : List (Text × Nat) := [
  ("DEBUG", 10), ("INFO", 20), ("WARNING", 30), ("WARN", 30), ("ERROR", 40), ("CRITICAL", 50),
  ("FATAL", 50), ("NOTSET", 0)]

def information : Nat := 20

def ofJson : Json → Except LevelFault Nat
  | .str s =>
    let name := upper s
    if name = "BASIC_FORMAT" then .error .isText
    else if name = "_STYLES" then .error .isTable
    else .ok ((Table.get? named name).getD information)
  | _ => .ok information

end LogLevel

end Hunkwise
