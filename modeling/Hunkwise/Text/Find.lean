import Hunkwise.Text.Basic

/-! Finding one text in another: replacing it, cutting at it, telling whether it is there. -/

namespace Hunkwise.Text

/-- The stretches of `xs` around the occurrences of the non-empty list `old`, taken from the left
without overlap. `skip` counts the elements of an occurrence that are still to be passed over. -/
def cutAt {α : Type} [DecidableEq α] (old : List α) : Nat → List α → List (List α)
  | _, [] => [[]]
  | skip + 1, _ :: xs => cutAt old skip xs
  | 0, x :: xs =>
    if old.isPrefixOf (x :: xs) then [] :: cutAt old (old.length - 1) xs
    else match cutAt old 0 xs with
      | [] => [[x]]
      | l :: ls => (x :: l) :: ls

def partsAround (old s : Text) : List Text := (cutAt old.letters 0 s.letters).map mk

def splitOn? (sep s : Text) : Option (List Text) :=
  if sep.isEmpty then none else some (partsAround sep s)

/-- Every occurrence of `old` replaced. The empty text occurs before and after every letter. -/
def replaceAll (old new s : Text) : Text :=
  if old.isEmpty then ⟨new.letters ++ s.letters.flatMap fun l => l :: new.letters⟩
  else new.intercalate (partsAround old s)

def occursIn (part s : Text) : Bool :=
  part.isEmpty || decide ((partsAround part s).length > 1)

end Hunkwise.Text
