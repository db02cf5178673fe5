import Hunkwise.Proofs.FormattingAgain
import Hunkwise.Proofs.ReportedText
import Hunkwise.Proofs.SameLines

/-! The report of what a formatting request changed. Its text compares the lines of the buffer before
and after as they are; its hunks compare keys, in which a final carriage return does not count. So
the text tells of every change, and the hunks of every change but those of carriage returns. -/

namespace Hunkwise

open Effect

namespace Diff

theorem Hunk.toJson_injective : Function.Injective Hunk.toJson := by
  intro a b h
  cases a
  cases b
  simpa [Hunk.toJson] using h

theorem Change.toJson_injective : Function.Injective Change.toJson := by
  intro a b h
  simp only [Change.toJson, Json.obj.injEq, List.cons.injEq, Prod.mk.injEq, Json.str.injEq,
    Json.arr.injEq, true_and, and_true] at h
  obtain ⟨hpath, hhunks, htext⟩ := h
  have hhunks := List.map_injective_iff.mpr Hunk.toJson_injective hhunks
  cases a
  cases b
  simp_all

theorem Change.toJson_ne_null (c : Change) : c.toJson ≠ .null := by
  simp [Change.toJson]

end Diff

theorem Json.ofOption_injective {α : Type} {f : α → Json} (hf : Function.Injective f)
    (hnull : ∀ a, f a ≠ .null) : Function.Injective (Json.ofOption f) := by
  intro a b h
  cases a with
  | none =>
    cases b with
    | none => rfl
    | some b => exact absurd h.symm (hnull b)
  | some a =>
    cases b with
    | none => exact absurd h (hnull a)
    | some b => exact congrArg some (hf h)

theorem FormatView.toJson_inj_change {f g : FormatView} (h : f.toJson = g.toJson) :
    f.changed = g.changed ∧ f.change = g.change := by
  simp only [FormatView.toJson, Json.obj.injEq, List.cons.injEq, Prod.mk.injEq, Json.bool.injEq,
    true_and, and_true] at h
  obtain ⟨-, -, hchanged, -, -, hchange⟩ := h
  exact ⟨hchanged,
    Json.ofOption_injective Diff.Change.toJson_injective Diff.Change.toJson_ne_null hchange⟩

namespace Service

variable {view : FormatView}

theorem formatReply_report {q : FormatBuffer} {before : Buffer} {w : Work}
    {outcomes : List Outcome} (h : formatReply q before w (.ok outcomes) = .ok view.toJson)
    (hchanged : view.changed = true) :
    w.buffer.lines ≠ before.lines ∧ ∃ change, view.change = some change ∧
      Diff.Change.between {} before.lines w.buffer.lines w.buffer.path = some change := by
  by_cases hsame : w.buffer.lines = before.lines
  · rw [formatReply_same hsame] at h
    have hview := FormatView.toJson_inj_change (Except.ok.inj h)
    rw [← hview.1] at hchanged
    cases hchanged
  · refine ⟨hsame, ?_⟩
    cases hchange : Diff.Change.between {} before.lines w.buffer.lines w.buffer.path with
    | none => simp [formatReply, hsame, hchange] at h
    | some change =>
      rw [formatReply_changed hsame hchange] at h
      exact ⟨change, (FormatView.toJson_inj_change (Except.ok.inj h)).2.symm, rfl⟩

/-- A change is reported with hunks that turn the keys of the lines before into those of the lines
after, and the lines themselves exactly if those outside the hunks stayed as they were. -/
theorem change_report_exact_iff (host : Host) (fuel : Nat) (s : Service) (r : HttpRequest)
    (view : FormatView) (trigger : Trigger)
    (hr : r.endpoint?.bind Endpoint.trigger? = some trigger)
    (hanswer : (answer host fuel r s).1 = .answered 200 view.toJson)
    (hchanged : view.changed = true) :
    let key := Diff.Options.key {}
    ∃ before after change,
      s.buffers.get? view.buffer = some before ∧
      (answer host fuel r s).2.buffers.get? view.buffer = some after ∧
      view.change = some change ∧ change.text ≠ "" ∧
      Diff.patch (before.lines.map key) (after.lines.map key) change.hunks = after.lines.map key ∧
      (change.hunks = [] ↔ before.lines.map key = after.lines.map key) ∧
      (Diff.patch before.lines after.lines change.hunks = after.lines ↔
        ∀ s ∈ Diff.stretches before.lines after.lines 0 0 change.hunks, s.1 = s.2) := by
  intro key
  obtain ⟨id, before, fs, settings, outcomes, w, -, hb, -, -, hreply, -, hs'⟩ :=
    answer_formatReply hr hanswer
  obtain ⟨outcomes', changed, change', -, hview⟩ := formatReply_ok hreply
  obtain rfl : view.buffer = id := (FormatView.toJson_inj hview).1
  obtain ⟨hne, change, hchange, hbetween⟩ := formatReply_report hreply hchanged
  obtain ⟨hs, hhunks, rfl⟩ := Option.map_eq_some_iff.mp hbetween
  have hafter : (answer host fuel r s).2.buffers.get? view.buffer = some w.buffer := by
    rw [hs']
    exact Table.get?_set_self _ _ _
  obtain ⟨bs, hbs, hcover, -⟩ := Diff.hunks_covers hhunks
  exact ⟨before, w.buffer, _, hb, hafter, hchange, Diff.unified_ne_empty hne.symm _,
    hbs ▸ hcover.patch_eq, Diff.hunks_eq_nil_iff hhunks, Diff.patch_eq_iff hhunks⟩

def newFile : Service where
  buffers := [("b", ⟨"/r/a", ["x"], true⟩)]
  attachments := [(("b", "f"), .toNewFile)]

def newFileView (lines : List Text) (change : Diff.Change) : FormatView where
  buffer := "b"
  content := Buffer.text ⟨"/r/a", lines, true⟩
  changed := true
  outcomes := [⟨"f", .formattedFile, 0, 1, 0⟩]
  change := some change

theorem newFile_settings : (Settings.current newFile.settings).1.toOption.isSome = true := by
  decide +kernel

theorem newFile_answer (written : String) {lines : List Text} {change : Diff.Change}
    (hwork : ∀ fs, ∃ log,
      newFile.formatWork (Script.newFile written).host 1 .command ⟨"b"⟩ fs ⟨"/r/a", ["x"], true⟩ =
        (.ok [⟨"f", .formattedFile, 0, 1, 0⟩], { buffer := ⟨"/r/a", lines, true⟩, log }))
    (hne : lines ≠ (["x"] : List Text))
    (hchange : Diff.Change.between {} ["x"] lines "/r/a" = some change)
    (henc : (newFileView lines change).toJson.isEncodable = true) :
    (answer (Script.newFile written).host 1 formatOne newFile).1 =
        .answered 200 (newFileView lines change).toJson ∧
      (answer (Script.newFile written).host 1 formatOne newFile).2.buffers.get? "b" =
        some ⟨"/r/a", lines, true⟩ := by
  obtain ⟨hr, hread, -⟩ := oneClient_ready
  obtain ⟨fs, hfs⟩ := Option.isSome_iff_exists.mp newFile_settings
  obtain ⟨log, hwork⟩ := hwork fs
  have hset : Settings.current newFile.settings = (.ok fs, _) := Prod.ext (toOption_eq_some hfs) rfl
  have hhandle : handle (Script.newFile written).host 1 formatOne.body .formatChanges newFile = _ :=
    (bind_ok (Body.read_good (Body.read_inv (toOption_eq_some hread)) newFile) _).trans
      (format_open _ _ _ _ rfl hset hwork)
  rw [answer_some hr, hhandle, formatReply_changed hne hchange]
  exact ⟨if_pos henc, Table.get?_set_self _ _ _⟩

/-- A line that is rewritten has a hunk, which puts the new line in the place of the old one. -/
theorem change_report_exact_rewritten_line :
    ∃ (view : FormatView) (before after : Buffer) (change : Diff.Change),
      (answer (Script.newFile "y\n").host 1 formatOne newFile).1 = .answered 200 view.toJson ∧
      view.changed = true ∧ newFile.buffers.get? "b" = some before ∧
      (answer (Script.newFile "y\n").host 1 formatOne newFile).2.buffers.get? "b" = some after ∧
      view.change = some change ∧ change.text ≠ "" ∧ change.hunks ≠ [] ∧
      Diff.patch before.lines after.lines change.hunks = after.lines := by
  have hchange : ∃ change, Diff.Change.between {} ["x"] ["y"] "/r/a" = some change ∧
      (newFileView ["y"] change).toJson.isEncodable = true ∧ change.hunks = [⟨1, 1, 1, 1⟩] := by
    decide +kernel
  obtain ⟨change, hchange, henc, hhunks⟩ := hchange
  obtain ⟨hanswer, hafter⟩ := newFile_answer "y\n" (fun fs => ⟨_, rfl⟩) (by decide) hchange henc
  have hr : formatOne.endpoint?.bind Endpoint.trigger? = some .command := by
    rw [oneClient_ready.1]
    rfl
  obtain ⟨before, after, change', hb, hafter', hreport, htext, -, -, hexact⟩ :=
    change_report_exact_iff _ _ _ _ _ _ hr hanswer rfl
  obtain rfl : before = ⟨"/r/a", ["x"], true⟩ := (Option.some.inj hb).symm
  obtain rfl : after = ⟨"/r/a", ["y"], true⟩ := Option.some.inj (hafter'.symm.trans hafter)
  obtain rfl : change' = change := (Option.some.inj hreport).symm
  refine ⟨_, _, _, change', hanswer, rfl, hb, hafter, hreport, htext, by simp [hhunks], ?_⟩
  rw [hexact, hhunks]
  decide

/-- A line that only gets a carriage return is changed, and shown in the text of the report; but there
is no hunk for it. -/
theorem change_report_misses_return :
    ∃ (view : FormatView) (change : Diff.Change),
      (answer (Script.newFile "x\r\n").host 1 formatOne newFile).1 = .answered 200 view.toJson ∧
      newFile.buffers.get? "b" = some ⟨"/r/a", ["x"], true⟩ ∧
      (answer (Script.newFile "x\r\n").host 1 formatOne newFile).2.buffers.get? "b" =
        some ⟨"/r/a", ["x\r"], true⟩ ∧
      view.changed = true ∧ view.change = some change ∧ change.text ≠ "" ∧ change.hunks = [] ∧
      Diff.patch (["x"] : List Text) ["x\r"] change.hunks ≠ (["x\r"] : List Text) := by
  have hchange : ∃ change, Diff.Change.between {} ["x"] ["x\r"] "/r/a" = some change ∧
      (newFileView ["x\r"] change).toJson.isEncodable = true ∧ change.text ≠ "" ∧
      change.hunks = [] := by decide +kernel
  obtain ⟨change, hchange, henc, htext, hhunks⟩ := hchange
  obtain ⟨hanswer, hafter⟩ := newFile_answer "x\r\n" (fun fs => ⟨_, rfl⟩) (by decide) hchange
    henc
  exact ⟨_, change, hanswer, rfl, hafter, rfl, rfl, htext, hhunks, by rw [hhunks]; decide⟩

end Service

end Hunkwise
