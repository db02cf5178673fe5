import Hunkwise.Proofs.FormatterRun
import Hunkwise.Proofs.LineText
import Hunkwise.Proofs.Utf8Text

/-! The lines of a buffer through any history of edits. A text and the bytes of a formatter reach a
buffer by the same way, as output lines, so its lines are always the output lines of some text.
Every way of writing them out and reading them again gives them back. -/

namespace Hunkwise

namespace Text

theorem unbroken_outputLines (s : Text) : Unbroken (outputLines s) := unbroken_lines (chomp s)

theorem outputLines_ne_blank (s : Text) : outputLines s ≠ [⟨[]⟩] := lines_ne_blank (chomp s)

theorem isEncodable_chomp {s : Text} (h : s.isEncodable = true) : s.chomp.isEncodable = true := by
  unfold chomp
  split
  · unfold isEncodable at h ⊢
    rw [List.all_eq_true] at h ⊢
    intro l hl
    exact h l (List.dropLast_subset _ hl)
  · exact h

theorem isEncodable_terminated_outputLines {s : Text} (h : s.isEncodable = true) :
    (terminated (outputLines s)).isEncodable = true := by
  unfold terminated
  split
  · rfl
  · rw [isEncodable_append, outputLines, join_lines, isEncodable_chomp h]
    rfl

end Text

/-- What can happen to a buffer. A formatter is asked with a log of the commands before it. -/
inductive Edit where
  | opened (path text : Text)
  | replaced (text : Text)
  | formatted (c : Client) (host : Host) (range : Option LineRange) (log : List Invocation)

namespace Edit

def apply (b : Buffer) : Edit → Buffer
  | opened path text => .ofText path text
  | replaced text => b.setText text
  | formatted c host range log => (c.format host range { buffer := b, log }).2.buffer

def texts : Edit → List Text
  | opened _ text => [text]
  | replaced text => [text]
  | formatted .. => []

end Edit

namespace Buffer

def after (b : Buffer) (es : List Edit) : Buffer := es.foldl Edit.apply b

/-- The lines of the buffer are the output lines of a text that is `P`. -/
def Holds (P : Text → Prop) (b : Buffer) : Prop := ∃ s, P s ∧ b.lines = Text.outputLines s

variable {P : Text → Prop} {b : Buffer}

theorem holds_ofText {path text : Text} (h : P text) : Holds P (ofText path text) := ⟨text, h, rfl⟩

theorem Holds.apply (hb : Holds P b) (hread : ∀ bytes, P (Text.decodeLossy bytes)) {e : Edit}
    (he : ∀ s ∈ e.texts, P s) : Holds P (e.apply b) := by
  cases e with
  | opened path text => exact holds_ofText (he text List.mem_cons_self)
  | replaced text => exact holds_ofText (he text List.mem_cons_self)
  | formatted c host range log =>
    show Holds P (c.format host range { buffer := b, log }).2.buffer
    rcases c.format_cases host range { buffer := b, log } with
      ⟨f, h⟩ | ⟨i, -, ⟨f, -, h⟩ | ⟨stdout, stderr, -, h⟩⟩
    · rw [h]; exact hb
    · rw [h]; exact hb
    · rw [h]; exact ⟨_, hread stdout, rfl⟩

theorem Holds.after (hb : Holds P b) (hread : ∀ bytes, P (Text.decodeLossy bytes)) {es : List Edit}
    (hes : ∀ e ∈ es, ∀ s ∈ e.texts, P s) : Holds P (b.after es) := by
  induction es generalizing b with
  | nil => exact hb
  | cons e es ih =>
    have hstep := hb.apply hread (hes e List.mem_cons_self)
    exact ih hstep fun e' he' => hes e' (List.mem_cons_of_mem e he')

theorem Holds.unbroken (h : Holds P b) : Text.Unbroken b.lines := by
  obtain ⟨s, -, hs⟩ := h
  rw [hs]
  exact Text.unbroken_outputLines s

theorem Holds.ne_blank (h : Holds P b) : b.lines ≠ [⟨[]⟩] := by
  obtain ⟨s, -, hs⟩ := h
  rw [hs]
  exact Text.outputLines_ne_blank s

theorem Holds.outputLines_stdin (h : Holds P b) {c : Client}
    {machine : Nat → Nat → Template.Machine} {range : Option LineRange} {i : Invocation}
    (hi : c.invocation machine b range = .ok i) : i.stdin.map Text.outputLines = some b.lines := by
  rw [Client.invocation_stdin hi, Option.map_some,
    Text.outputLines_terminated h.ne_blank h.unbroken]

/-- A formatter that answers with the bytes it was given changes nothing. -/
theorem Holds.format_echo (h : Holds (fun s => s.isEncodable = true) b) {c : Client}
    {machine : Nat → Nat → Template.Machine} {range : Option LineRange} {i : Invocation}
    (hi : c.invocation machine b range = .ok i) :
    ∃ bytes, i.stdin.bind Text.encode? = some bytes ∧
      ∀ (host : Host) (w : Work) (stderr : List UInt8), w.buffer = b →
        host.machine w.log = machine → host w.log i = .exited 0 bytes stderr →
        c.format host range w = (.ok false, { w with log := w.log ++ [i] }) := by
  have hstdin := Client.invocation_stdin hi
  have henc : (Text.terminated b.lines).isEncodable = true := by
    obtain ⟨s, hs, hlines⟩ := h
    rw [hlines]
    exact Text.isEncodable_terminated_outputLines hs
  obtain ⟨bytes, hbytes⟩ := Text.exists_encode? henc
  refine ⟨bytes, by rw [hstdin]; exact hbytes, ?_⟩
  rintro host w stderr rfl rfl hhost
  -- what the formatter wrote is decoded to what it read, and that is taken apart into the lines
  have hrun := host.run_encodable (i := i) (by rw [hstdin, Option.any_some, henc]; rfl) w.log
  rw [hhost, Response.output, Text.decodeLossy_encode? hbytes,
    Text.outputLines_terminated h.ne_blank h.unbroken] at hrun
  rw [c.format_exited host range w hi hrun]
  simp [Output.ok]

/-- However a buffer came about, its lines are read back from their joined text and from what a
formatter reads, and a formatter that only echoes changes nothing. -/
theorem edited_lines_read_back (path text : Text) (es : List Edit) :
    let b := (ofText path text).after es
    Text.Unbroken b.lines ∧ b.lines ≠ [⟨[]⟩] ∧
    Text.lines (Text.join b.lines) = b.lines ∧
    (∀ (c : Client) (machine : Nat → Nat → Template.Machine) (range : Option LineRange)
      (i : Invocation), c.invocation machine b range = .ok i →
      i.stdin.map Text.outputLines = some b.lines ∧
      (text.isEncodable = true → (∀ e ∈ es, ∀ s ∈ e.texts, s.isEncodable = true) →
        ∃ bytes, i.stdin.bind Text.encode? = some bytes ∧
          ∀ (host : Host) (w : Work) (stderr : List UInt8), w.buffer = b →
            host.machine w.log = machine → host w.log i = .exited 0 bytes stderr →
            c.format host range w = (.ok false, { w with log := w.log ++ [i] }))) ∧
    ∀ p s, (ofText p s).lines = Text.outputLines s ∧ (b.setText s).lines = Text.outputLines s := by
  intro b
  have hb : Holds (fun _ => True) b :=
    (holds_ofText trivial).after (fun _ => trivial) fun _ _ _ _ => trivial
  refine ⟨hb.unbroken, hb.ne_blank, Text.lines_join hb.ne_blank hb.unbroken, ?_,
    fun p s => ⟨rfl, rfl⟩⟩
  intro c machine range i hi
  refine ⟨hb.outputLines_stdin hi, fun htext hes => ?_⟩
  have henc : Holds (fun s => s.isEncodable = true) b :=
    (holds_ofText htext).after Text.isEncodable_decodeLossy hes
  exact henc.format_echo hi

/-- A buffer that was two empty lines, then had no final newline, and then got bytes of a formatter
that are no text. -/
theorem edited_lines_read_back_malformed :
    let cat : Client := { formatter := { name := "cat", command := ["cat"] } }
    let malformed : Host := { answer := fun _ _ => .exited 0 [0x0A, 0x0A, 0xFF, 0x0A] [] }
    let b := (ofText "/a" "\n\n").after [.replaced "\n\nx", .formatted cat malformed none []]
    b.lines = (["", "", "\uFFFD"] : List Text) ∧
    ∃ i bytes, cat.invocation (malformed.machine []) b none = .ok i ∧ i.stdin.bind Text.encode? = some bytes ∧
      cat.format { answer := fun _ _ => .exited 0 bytes [] } none { buffer := b } =
        (.ok false, { buffer := b, log := [i] }) := by
  intro cat malformed b
  refine ⟨rfl, ?_⟩
  have hi : cat.invocation (malformed.machine []) b none = .ok
      { command := "cat", directory := some "/"
        stdin := some (Text.terminated b.lines) } := rfl
  obtain ⟨bytes, hbytes, hecho⟩ := ((edited_lines_read_back "/a" "\n\n"
    [.replaced "\n\nx", .formatted cat malformed none []]).2.2.2.1 cat _ none _ hi).2 (by decide)
    (by simp [Edit.texts]; decide)
  exact ⟨_, bytes, hi, hbytes, hecho _ { buffer := b } [] rfl rfl rfl⟩

end Buffer

end Hunkwise
