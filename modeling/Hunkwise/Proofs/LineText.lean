import Hunkwise.Text.Lines

/-! Lines and their texts. The lines of a text hold no newline and are never one empty line, and
such lines are read back both from their joined text and from their terminated text. -/

namespace Hunkwise.Text

section Cut

variable {α : Type} [DecidableEq α]

theorem cut_cons_of_ne {sep c : α} (h : c ≠ sep) (cs : List α) :
    ∃ l ls, cut sep cs = l :: ls ∧ cut sep (c :: cs) = (c :: l) :: ls := by
  obtain ⟨l, ls, hl⟩ := List.exists_cons_of_ne_nil (cut_ne_nil sep cs)
  refine ⟨l, ls, hl, ?_⟩
  rw [cut, if_neg h, hl]

theorem not_mem_of_mem_cut {sep : α} {cs l : List α} (h : l ∈ cut sep cs) : sep ∉ l := by
  induction cs generalizing l with
  | nil => rw [List.mem_singleton.mp h]; exact List.not_mem_nil
  | cons c cs ih =>
    by_cases hc : c = sep
    · rw [cut, if_pos hc] at h
      rcases List.mem_cons.mp h with rfl | h
      · exact List.not_mem_nil
      · exact ih h
    · obtain ⟨m, ms, hm, hcut⟩ := cut_cons_of_ne hc cs
      rw [hcut] at h
      rcases List.mem_cons.mp h with rfl | h
      · rw [List.mem_cons, not_or]
        exact ⟨Ne.symm hc, ih (by rw [hm]; exact List.mem_cons_self)⟩
      · exact ih (by rw [hm]; exact List.mem_cons_of_mem _ h)

theorem intercalate_cut (sep : α) (cs : List α) : [sep].intercalate (cut sep cs) = cs := by
  induction cs with
  | nil => rfl
  | cons c cs ih =>
    obtain ⟨l, ls, hl⟩ := List.exists_cons_of_ne_nil (cut_ne_nil sep cs)
    by_cases hc : c = sep
    · rw [cut, if_pos hc, hl, List.intercalate_cons_cons, ← hl, ih, hc]
      rfl
    · rw [cut, if_neg hc, hl]
      rw [hl] at ih
      cases ls with
      | nil => simpa using ih
      | cons m ms =>
        rw [List.intercalate_cons_cons] at ih ⊢
        rw [← ih]
        rfl

theorem cut_append_sep (sep : α) (cs : List α) : cut sep (cs ++ [sep]) = cut sep cs ++ [[]] := by
  induction cs with
  | nil => simp [cut]
  | cons c cs ih =>
    obtain ⟨l, ls, hl⟩ := List.exists_cons_of_ne_nil (cut_ne_nil sep cs)
    by_cases hc : c = sep <;> simp [cut, hc, ih, hl]

end Cut

def Unbroken (ls : List Text) : Prop := ∀ l ∈ ls, Letter.char '\n' ∉ l.letters

instance (ls : List Text) : Decidable (Unbroken ls) :=
  inferInstanceAs (Decidable (∀ l ∈ ls, Letter.char '\n' ∉ l.letters))

theorem unbroken_lines (s : Text) : Unbroken (lines s) := by
  unfold lines
  split
  · intro l hl; exact absurd hl List.not_mem_nil
  · intro l hl
    obtain ⟨cs, hcs, rfl⟩ := List.mem_map.mp hl
    exact not_mem_of_mem_cut hcs

theorem join_lines (s : Text) : join (lines s) = s := by
  unfold lines
  split
  · next he =>
    rw [isEmpty, List.isEmpty_iff] at he
    exact congrArg mk he.symm
  · apply congrArg mk
    show [Letter.char '\n'].intercalate (((cut (.char '\n') s.letters).map mk).map letters) = _
    rw [List.map_map]
    exact (congrArg _ (List.map_id _)).trans (intercalate_cut _ _)

theorem lines_ne_blank (s : Text) : lines s ≠ [⟨[]⟩] := by
  intro h
  have hs := join_lines s
  rw [h] at hs
  rw [← hs] at h
  exact absurd h (by decide)

/-- Lines without newlines are the lines of their text, if there is a letter in it. -/
theorem Unbroken.lines_join_of_ne_empty {ls : List Text} (h : Unbroken ls)
    (hne : lines (join ls) ≠ []) : lines (join ls) = ls := by
  refine lines_join ?_ h
  rintro rfl
  exact hne rfl

theorem chomp_append_newline (s : Text) : chomp (s ++ "\n") = s := by
  have hl : (s ++ ("\n" : Text)).letters = s.letters ++ [Letter.char '\n'] := rfl
  unfold chomp endsWith dropLast
  rw [hl, List.getLast?_concat, List.dropLast_concat]
  simp

theorem chomp_append_of_endsWith {s : Text} (h : s.endsWith '\n' = true) :
    s.chomp ++ "\n" = s := by
  obtain ⟨ls, hls⟩ := List.getLast?_eq_some_iff.mp (beq_iff_eq.mp h)
  rw [chomp, if_pos h]
  apply congrArg mk
  rw [dropLast, hls, List.dropLast_concat]
  rfl

theorem chomp_eq_self {s : Text} (h : s.endsWith '\n' = false) : s.chomp = s := by
  rw [chomp, h]
  rfl

/-- A list of lines is read back from its terminated text, unless it is one empty line. -/
theorem outputLines_terminated {ls : List Text} (hne : ls ≠ [⟨[]⟩]) (h : Unbroken ls) :
    outputLines (terminated ls) = ls := by
  unfold outputLines terminated
  cases ls with
  | nil => rfl
  | cons l ls =>
    rw [List.isEmpty_cons, if_neg Bool.false_ne_true, chomp_append_newline]
    exact lines_join hne h

theorem splitAt_append_newline (s : Text) :
    (s ++ "\n").splitAt '\n' = s.splitAt '\n' ++ [⟨[]⟩] := by
  have hletters : (s ++ ("\n" : Text)).letters = s.letters ++ [Letter.char '\n'] := rfl
  rw [splitAt, hletters, cut_append_sep, List.map_append]
  rfl

section Passed

variable {p : Text → Bool}

/-- Apart from empty lines, the lines of a text are what stands between its newlines. -/
theorem filter_lines (hp : p ⟨[]⟩ = false) (s : Text) :
    (lines s).filter p = (s.splitAt '\n').filter p := by
  unfold lines
  split
  · next he =>
    rw [isEmpty, List.isEmpty_iff] at he
    simp [splitAt, he, cut, hp]
  · rfl

theorem filter_outputLines (hp : p ⟨[]⟩ = false) (s : Text) :
    (outputLines s).filter p = (s.splitAt '\n').filter p := by
  rw [outputLines, filter_lines hp]
  cases hend : s.endsWith '\n' with
  | false => rw [chomp_eq_self hend]
  | true =>
    have hs := splitAt_append_newline s.chomp
    rw [chomp_append_of_endsWith hend] at hs
    simp [hs, hp]

theorem filter_splitAt_join {ls : List Text} (hp : p ⟨[]⟩ = false) (h : Unbroken ls) :
    ((join ls).splitAt '\n').filter p = ls.filter p := by
  cases ls with
  | nil => exact List.filter_cons_of_neg (by simpa using hp)
  | cons l ls => rw [splitAt_join (List.cons_ne_nil l ls) h]

end Passed

end Hunkwise.Text
