import Hunkwise.Proofs.FormattingAgain

/-! Texts that an editor pushes. A buffer keeps a text as its lines and whether a newline ends the last
of them, and gives every text back but one. A lone newline ends an empty line; the buffer takes it for
no line at all, and gives back the empty text. -/

namespace Hunkwise

open Effect

namespace Text

theorem lines_eq_nil_iff {s : Text} : lines s = [] ↔ s = "" := by
  constructor
  · intro h
    rw [← join_lines s, h]
    rfl
  · rintro rfl
    rfl

end Text

namespace Buffer

/-- What becomes of a text in a buffer. -/
theorem text_ofText (path s : Text) : (ofText path s).text = if s = "\n" then ("" : Text) else s := by
  simp only [text, ofText, Text.join_lines]
  cases hend : s.endsWith '\n' with
  | true =>
    have hs := Text.chomp_append_of_endsWith hend
    cases hlines : (Text.lines s.chomp).isEmpty with
    | true =>
      -- nothing is left without the newline
      have hempty := Text.lines_eq_nil_iff.mp (List.isEmpty_iff.mp hlines)
      rw [hempty] at hs ⊢
      rw [if_pos (show s = "\n" from hs.symm)]
      rfl
    | false =>
      rw [if_neg (show s ≠ "\n" by rintro rfl; cases hlines)]
      exact hs
  | false =>
    rw [Text.chomp_eq_self hend, if_neg (show s ≠ "\n" by rintro rfl; cases hend)]
    cases hempty : s.isEmpty with
    | true =>
      obtain rfl : s = "" := congrArg Text.mk (List.isEmpty_iff.mp hempty)
      rfl
    | false => rfl

theorem text_ofText_eq_iff (path s : Text) : (ofText path s).text = s ↔ s ≠ "\n" := by
  rw [text_ofText]
  split
  · next h => exact iff_of_false (by rw [h]; decide) (not_not_intro h)
  · next h => exact iff_of_true rfl h

end Buffer

namespace Service

variable {host : Host} {fuel : Nat} {put get : HttpRequest} {id : Text} {b : Buffer}
  {u : BufferUpdate} {s : Service}

theorem showBuffer_open (h : s.buffers.get? id = some b) :
    showBuffer id s = (.ok (s.view id b).toJson, s) := by
  unfold showBuffer
  rw [bind_ok (Handler.buffer_some h)]
  rfl

theorem answer_pushed (hput : put.endpoint? = some (.openBuffer id))
    (hu : put.body.check? BufferUpdate.check = some (.good u))
    (hget : get.endpoint? = some (.showBuffer id)) (host : Host) (fuel : Nat) (s : Service) :
    let view := s.view id (Buffer.ofText u.path u.content)
    (answer host fuel put s).1 = accept view.toJson ∧
      (answer host fuel get (answer host fuel put s).2).1 = accept view.toJson := by
  have hopen : handle host fuel put.body (.openBuffer id) s = openBuffer id u s := by
    unfold handle
    exact bind_ok (Body.read_good hu s) _
  rw [answer_some hput, hopen]
  refine ⟨rfl, ?_⟩
  rw [answer_some hget, handle, showBuffer_open (Table.get?_set_self _ _ _)]
  rfl

/-- Every text but a lone newline is given back by a buffer that is made of it or set to it; and so a
client that pushes a text and asks for it is answered with that text. -/
theorem pushed_text_reads_back_iff (path text : Text) (b : Buffer) :
    ((Buffer.ofText path text).text = text ↔ text ≠ "\n") ∧
    ((b.setText text).text = text ↔ text ≠ "\n") ∧
    ∀ {put get : HttpRequest} {id : Text}, put.endpoint? = some (.openBuffer id) →
      put.body.check? BufferUpdate.check = some (.good ⟨path, text⟩) →
      get.endpoint? = some (.showBuffer id) → ∀ (host : Host) (fuel : Nat) (s : Service),
      ∃ view : BufferView, view.id = id ∧ view.path = path ∧
        (view.content = text ↔ text ≠ "\n") ∧
        (answer host fuel put s).1 = accept view.toJson ∧
        (answer host fuel get (answer host fuel put s).2).1 = accept view.toJson := by
  refine ⟨Buffer.text_ofText_eq_iff path text, Buffer.text_ofText_eq_iff b.path text, ?_⟩
  intro put get id hput hu hget host fuel s
  obtain ⟨hopened, hshown⟩ := answer_pushed hput hu hget host fuel s
  exact ⟨_, rfl, rfl, Buffer.text_ofText_eq_iff path text, hopened, hshown⟩

def pushTo (u : BufferUpdate) : HttpRequest := .sending "PUT" "/api/buffers/b" u.toJson

def askFor : HttpRequest := .sending "GET" "/api/buffers/b" .null

/-- Blank lines and carriage returns come back. -/
theorem blank_lines_read_back :
    let u : BufferUpdate := ⟨"/r/a", "\n\r\n\n"⟩
    (pushTo u).endpoint? = some (.openBuffer "b") ∧
      (pushTo u).body.check? BufferUpdate.check = some (.good u) ∧
      askFor.endpoint? = some (.showBuffer "b") ∧ (Buffer.ofText u.path u.content).text = u.content ∧
      ((⟨"/r/a", ["x"], false⟩ : Buffer).setText u.content).text = u.content ∧
      ∃ view : BufferView, view.content = u.content ∧
        (answer (Script.host []) 0 askFor (answer (Script.host []) 0 (pushTo u) {}).2).1 =
          accept view.toJson := by
  intro u
  have hput : (pushTo u).endpoint? = some (.openBuffer "b") := by decide +kernel
  have hread : ((pushTo u).body.read BufferUpdate.check {}).1.toOption = some u := by decide +kernel
  have hu := Body.read_inv (toOption_eq_some hread)
  have hget : askFor.endpoint? = some (.showBuffer "b") := by decide +kernel
  have hnot : u.content ≠ "\n" := by decide
  obtain ⟨hmade, hset, hpushed⟩ := pushed_text_reads_back_iff u.path u.content ⟨"/r/a", ["x"], false⟩
  obtain ⟨view, -, -, hcontent, -, hshown⟩ := hpushed hput hu hget (Script.host []) 0 {}
  exact ⟨hput, hu, hget, hmade.mpr hnot, hset.mpr hnot, view, hcontent.mpr hnot, hshown⟩

/-- A lone newline is pushed, and the empty text comes back. -/
theorem lone_newline_reads_back_empty :
    let u : BufferUpdate := ⟨"/r/a", "\n"⟩
    (Buffer.ofText u.path u.content).text = "" ∧ u.content ≠ "" ∧
      (pushTo u).endpoint? = some (.openBuffer "b") ∧
      (pushTo u).body.check? BufferUpdate.check = some (.good u) ∧
      askFor.endpoint? = some (.showBuffer "b") ∧
      (answer (Script.host []) 0 askFor (answer (Script.host []) 0 (pushTo u) {}).2).1 =
        .answered 200 (BufferView.toJson { id := "b", path := "/r/a", content := "" }) := by
  intro u
  have hput : (pushTo u).endpoint? = some (.openBuffer "b") := by decide +kernel
  have hread : ((pushTo u).body.read BufferUpdate.check {}).1.toOption = some u := by decide +kernel
  have hu := Body.read_inv (toOption_eq_some hread)
  have hget : askFor.endpoint? = some (.showBuffer "b") := by decide +kernel
  obtain ⟨-, hshown⟩ := answer_pushed hput hu hget (Script.host []) 0 {}
  exact ⟨by decide, by decide, hput, hu, hget, hshown.trans (if_pos (by decide +kernel))⟩

end Service

end Hunkwise
