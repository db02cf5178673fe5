import Hunkwise.Proofs.RequestCourse

/-! The text that is reported of a buffer, and its lines. The text is meant to be opened again as the
same lines. But a formatter writes lines only, and whether a newline ends the last of them stays as
it was when the buffer was opened; so an empty last line is lost in the text of a buffer that was
opened without a final newline. -/

namespace Hunkwise

namespace Text

variable {ls init : List Text} {l : Text}

theorem letters_join_concat (h : init ≠ []) (l : Text) :
    (join (init ++ [l])).letters = (join init).letters ++ Letter.char '\n' :: l.letters := by
  induction init with
  | nil => exact absurd rfl h
  | cons m ms ih =>
    cases ms with
    | nil => simp [letters_join, List.intercalate_cons_cons]
    | cons n ns => simpa [letters_join, List.intercalate_cons_cons] using ih (by simp)

/-- Joined lines end in a newline only where the last of several is empty. -/
theorem endsWith_join (hl : Letter.char '\n' ∉ l.letters) (hne : l ≠ ⟨[]⟩) (init : List Text) :
    (join (init ++ [l])).endsWith '\n' = false := by
  have hlast : l.letters ≠ [] := fun h => hne (congrArg mk h)
  have hend : (join (init ++ [l])).letters.getLast? = l.letters.getLast? := by
    rcases eq_or_ne init [] with rfl | hinit
    · simp [letters_join]
    · rw [letters_join_concat hinit, List.getLast?_append_of_ne_nil _ (List.cons_ne_nil _ _)]
      exact List.getLast?_cons_of_ne_nil hlast
  simp only [endsWith, hend, beq_eq_false_iff_ne, ne_eq]
  exact fun h => hl (List.mem_of_getLast? h)

theorem length_lines_join_le (h : Unbroken ls) : (lines (join ls)).length ≤ ls.length := by
  rcases eq_or_ne ls [⟨[]⟩] with rfl | hne
  · decide
  · exact Nat.le_of_eq (congrArg List.length (lines_join hne h))

theorem outputLines_join (hne : ls ≠ [⟨[]⟩]) (h : Unbroken ls) :
    outputLines (join ls) = ls ↔ ls.getLast? ≠ some ⟨[]⟩ := by
  rcases List.eq_nil_or_concat ls with rfl | ⟨init, l, rfl⟩
  · decide
  · rw [List.concat_eq_append] at hne h ⊢
    have hinit : Unbroken init := fun m hm => h m (List.mem_append_left [l] hm)
    rw [List.getLast?_concat, ne_eq, Option.some.injEq]
    by_cases hl : l = ⟨[]⟩
    · subst hl
      have htext : join (init ++ [⟨[]⟩]) = join init ++ "\n" :=
        congrArg mk (letters_join_concat (by rintro rfl; exact hne rfl) ⟨[]⟩)
      have hlength := length_lines_join_le hinit
      simp only [not_true_eq_false, iff_false]
      intro hlines
      rw [outputLines, htext, chomp_append_newline] at hlines
      rw [hlines, List.length_append, List.length_singleton] at hlength
      omega
    · have hend := endsWith_join (h l (by simp)) hl init
      simp [outputLines, chomp, hend, hl, lines_join hne h]

end Text

structure Formatting where
  host : Host
  limits : RequestLimits
  attachments : List Attachment
  trigger : Trigger := .command
  log : List Invocation := []

namespace Buffer

variable {b : Buffer}

def formattedBy (b : Buffer) (f : Formatting) : Buffer :=
  (formatBuffer f.host f.limits f.attachments f.trigger { buffer := b, log := f.log }).2.buffer

theorem formattedBy_eq (b : Buffer) (f : Formatting) :
    ∃ ran, b.formattedBy f = b.writtenBy f.host f.log ran := by
  obtain ⟨ran, -, hchain⟩ := leads_formatBuffer f.host f.limits f.attachments f.trigger
    { buffer := b, log := f.log }
  exact ⟨ran, hchain.formatterChain.leaves⟩

/-- Formatting requests write lines that are read from some text, and nothing else. -/
theorem foldl_formattedBy (hb : b.Holds fun _ => True) (fs : List Formatting) :
    (fs.foldl formattedBy b).Holds (fun _ => True) ∧
      (fs.foldl formattedBy b).endsLine = b.endsLine := by
  induction fs generalizing b with
  | nil => exact ⟨hb, rfl⟩
  | cons f fs ih =>
    obtain ⟨ran, hran⟩ := b.formattedBy_eq f
    have hf : (b.formattedBy f).Holds fun _ => True := hran ▸ hb.writtenBy f.host f.log ran
    have hends : (b.formattedBy f).endsLine = b.endsLine := by rw [hran]; rfl
    rw [List.foldl_cons, ← hends]
    exact ih hf

theorem Holds.outputLines_text (hb : b.Holds fun _ => True) :
    Text.outputLines b.text = b.lines ↔ b.endsLine = true ∨ b.lines.getLast? ≠ some ⟨[]⟩ := by
  have hread := Text.outputLines_join hb.ne_blank hb.unbroken
  unfold text
  cases hends : b.endsLine with
  | false => simpa using hread
  | true =>
    cases hlines : b.lines with
    | nil => decide
    | cons l ls =>
      rw [← hlines, Bool.true_and, if_pos (by simp [hlines]), Text.outputLines,
        Text.chomp_append_newline, Text.lines_join hb.ne_blank hb.unbroken]
      simp

/-- What is reported of a buffer after any number of formatting requests is opened again as the same
lines exactly if it was opened with a final newline, or as empty, or its last line is not empty. -/
theorem reported_text_reads_back_iff (path text : Text) (fs : List Formatting) :
    let b := fs.foldl formattedBy (ofText path text)
    (∀ p, (ofText p b.text).lines = b.lines) ↔
      text.endsWith '\n' = true ∨ text.isEmpty = true ∨ b.lines.getLast? ≠ some "" := by
  intro b
  obtain ⟨hb, hends⟩ := foldl_formattedBy (holds_ofText (P := fun _ => True) trivial) fs
  have hread := hb.outputLines_text
  rw [hends] at hread
  simp only [ofText, Bool.or_eq_true, or_assoc] at hread
  exact (forall_const Text).trans hread

end Buffer

def Script.newFile (written : String) : Script := [
  { words := ["rev-parse"], reply := .writes "/r\n" },
  { words := ["ls-files"], reply := .writes "" },
  { words := ["f"], reply := .writes written }]

def Attachment.toNewFile : Attachment where
  buffer := "b"
  client := { formatter := { name := "f", command := ["f"], rangeArgs := some [] } }
  config := {}

/-- The empty line that the formatter leaves is not in the text that is reported. -/
theorem Buffer.reported_text_drops_blank_line :
    let b := (Buffer.ofText "/r/a" "x").formattedBy
      { host := (Script.newFile "a\n\n").host, limits := { fuel := 1 }
        attachments := [.toNewFile] }
    b.lines = (["a", ""] : List Text) ∧ b.text = "a\n" ∧
      (Buffer.ofText "/r/a" b.text).lines = (["a"] : List Text) := by
  decide +kernel

end Hunkwise
