import Hunkwise.Text.Basic

/-! Lines of text. A text is cut at every newline; the output of a command loses one final newline
first, so that a newline ends a line there and separates two lines elsewhere. -/

namespace Hunkwise.Text

section Cut

variable {α : Type} [DecidableEq α]

/-- The stretches of `cs` between the occurrences of `sep`; never the empty list. -/
def cut (sep : α) : List α → List (List α)
  | [] => [[]]
  | c :: cs =>
    if c = sep then [] :: cut sep cs
    else match cut sep cs with
      | [] => [[c]]
      | l :: ls => (c :: l) :: ls

theorem cut_ne_nil (sep : α) (cs : List α) : cut sep cs ≠ [] := by
  cases cs with
  | nil => simp [cut]
  | cons c cs =>
    unfold cut
    split
    · simp
    · split <;> simp

theorem cut_of_not_mem {sep : α} {l : List α} (h : sep ∉ l) : cut sep l = [l] := by
  induction l with
  | nil => rfl
  | cons c cs ih =>
    have hc : c ≠ sep := fun e => h (e ▸ List.mem_cons_self)
    simp [cut, hc, ih fun hm => h (List.mem_cons_of_mem _ hm)]

theorem cut_append {sep : α} {l : List α} (h : sep ∉ l) (rest : List α) :
    cut sep (l ++ sep :: rest) = l :: cut sep rest := by
  induction l with
  | nil => simp [cut]
  | cons c cs ih =>
    have hc : c ≠ sep := fun e => h (e ▸ List.mem_cons_self)
    simp [cut, hc, ih fun hm => h (List.mem_cons_of_mem _ hm)]

theorem cut_intercalate {sep : α} {ls : List (List α)} (hne : ls ≠ [])
    (h : ∀ l ∈ ls, sep ∉ l) : cut sep ([sep].intercalate ls) = ls := by
  induction ls with
  | nil => exact absurd rfl hne
  | cons l ls ih =>
    cases ls with
    | nil => simpa using cut_of_not_mem (h l (by simp))
    | cons m ms =>
      have := ih (by simp) fun x hx => h x (List.mem_cons_of_mem _ hx)
      rw [List.intercalate_cons_cons]
      simpa [this] using cut_append (h l (by simp)) ([sep].intercalate (m :: ms))

end Cut

def splitAt (sep : Char) (s : Text) : List Text := (cut (Letter.char sep) s.letters).map mk

/-- Lines separated by newlines; the empty text has none. -/
def lines (s : Text) : List Text := if s.isEmpty then [] else s.splitAt '\n'

def endsWith (s : Text) (c : Char) : Bool := s.letters.getLast? == some (Letter.char c)

def dropLast (s : Text) : Text := ⟨s.letters.dropLast⟩

def chomp (s : Text) : Text := if s.endsWith '\n' then s.dropLast else s

/-- Lines ended by newlines: one final newline starts no line of its own. -/
def outputLines (s : Text) : List Text := s.chomp.lines

/-- Letters in which a carriage return, alone or before a newline, counts as a newline. -/
def unifyBreaks : List Letter → List Letter
  | [] => []
  | .char '\r' :: .char '\n' :: ls => .char '\n' :: unifyBreaks ls
  | .char '\r' :: ls => .char '\n' :: unifyBreaks ls
  | l :: ls => l :: unifyBreaks ls

def join (ls : List Text) : Text := intercalate "\n" ls

/-- Every line with its newline: the text that `outputLines` takes apart again. -/
def terminated (ls : List Text) : Text := if ls.isEmpty then "" else join ls ++ "\n"

theorem letters_join (ls : List Text) :
    (join ls).letters = [Letter.char '\n'].intercalate (ls.map letters) := rfl

/-- The parts of a text are read back from it where the separator stands in none of them. -/
theorem splitAt_intercalate {sep : Char} {ts : List Text} (hne : ts ≠ [])
    (h : ∀ t ∈ ts, .char sep ∉ t.letters) : (intercalate ⟨[.char sep]⟩ ts).splitAt sep = ts := by
  have := @cut_intercalate _ _ (.char sep) (ts.map letters) (by simpa using hne) (by simpa using h)
  rw [splitAt, intercalate, this, List.map_map]
  exact List.map_id ts

theorem splitAt_join {ls : List Text} (hne : ls ≠ []) (h : ∀ l ∈ ls, .char '\n' ∉ l.letters) :
    (join ls).splitAt '\n' = ls :=
  splitAt_intercalate hne h

/-- A list of lines is read back from its text, unless it is one empty line: that text has none. -/
theorem lines_join {ls : List Text} (hne : ls ≠ [⟨[]⟩]) (h : ∀ l ∈ ls, .char '\n' ∉ l.letters) :
    (join ls).lines = ls := by
  cases ls with
  | nil => rfl
  | cons l ls =>
    have hs := splitAt_join (by simp) h
    by_cases he : (join (l :: ls)).isEmpty
    · have : join (l :: ls) = ⟨[]⟩ := by
        simp only [isEmpty, List.isEmpty_iff] at he
        exact congrArg mk he
      rw [this] at hs
      exact absurd hs.symm (by simpa [splitAt, cut] using hne)
    · simp [lines, he, hs]

end Hunkwise.Text
