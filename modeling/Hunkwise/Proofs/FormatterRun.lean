import Hunkwise.Formatter.Run
import Hunkwise.Proofs.Effects

/-! One request to a formatter. It is refused before any command runs, or its command runs and
fails, or the command ends well and the lines it wrote are the lines of the buffer. -/

namespace Hunkwise

namespace Working

variable {ε ε' α : Type} {w : Work}

theorem commands_ok {act : Commands ε α} {a : α} {log : List Invocation}
    (h : act w.log = (.ok a, log)) (g : ε → ε') :
    ExceptT.adapt g (commands act) w = (.ok a, { w with log }) := by
  have hact : commands act w = (.ok a, { w with log }) := by unfold commands; rw [h]
  show (match commands act w with | (r, v) => (r.mapError g, v)) = _
  rw [hact]
  rfl

theorem commands_error {act : Commands ε α} {e : ε} {log : List Invocation}
    (h : act w.log = (.error e, log)) (g : ε → ε') :
    ExceptT.adapt g (commands act) w = (.error (g e), { w with log }) := by
  have hact : commands act w = (.error e, { w with log }) := by unfold commands; rw [h]
  show (match commands act w with | (r, v) => (r.mapError g, v)) = _
  rw [hact]
  rfl

end Working

theorem Buffer.setLines_all (b : Buffer) (ls : List Text) :
    b.setLines 0 b.lines.length ls = { b with lines := ls } := by
  have hall : splice b.lines (0 : Nat) b.lines.length ls = ls := by
    rw [splice_natCast (Nat.zero_le _) (Nat.le_refl _), List.take_zero, List.drop_length]
    simp
  unfold Buffer.setLines
  rw [if_neg (by omega)]
  exact congrArg (fun lines => { b with lines }) hall

theorem Host.run_unencodable (host : Host) {i : Invocation}
    (h : (i.stdin.any fun s => !s.isEncodable) = true) (log : List Invocation) :
    host.run i log = (.error .unencodable, log) := by
  unfold Host.run
  rw [if_pos h]
  rfl

theorem Host.run_encodable (host : Host) {i : Invocation}
    (h : (i.stdin.any fun s => !s.isEncodable) = false) (log : List Invocation) :
    host.run i log = ((host log i).output i.command, log ++ [i]) := by
  unfold Host.run
  rw [if_neg (by rw [h]; exact Bool.false_ne_true)]
  rfl

/-- Only a command that ran and exited with zero has an output that counts. -/
theorem Response.output_ok {r : Response} {command : Text} {out : Output}
    (h : r.output command = .ok out) (hok : out.ok = true) :
    ∃ stdout stderr, r = .exited 0 stdout stderr ∧
      out.stdout = Text.outputLines (Text.decodeLossy stdout) := by
  cases r with
  | exited code stdout stderr =>
    cases h
    have hcode : code = 0 := by simpa [Output.ok] using hok
    exact ⟨stdout, stderr, by rw [hcode], rfl⟩
  | notStarted why => cases h; exact absurd hok Bool.false_ne_true
  | broken => cases h
  | timedOut => cases h
  | misused => cases h

namespace Client

variable (c : Client) (host : Host) (range : Option LineRange) (w : Work)

theorem invocation_stdin {c : Client} {machine : Nat → Nat → Template.Machine} {b : Buffer}
    {range : Option LineRange} {i : Invocation} (h : c.invocation machine b range = .ok i) : i.stdin = some (Text.terminated b.lines) := by
  unfold invocation at h
  split at h
  · cases h
  · split at h
    · cases h
    · cases h
    · cases h; rfl

theorem format_refused {f : FormatFailure}
    (h : c.invocation (host.machine w.log) w.buffer range = .error f) :
    c.format host range w = (.error f, w) := by
  unfold format
  rw [Effect.bind_get]
  dsimp only
  rw [h]
  exact Effect.bind_error rfl _

theorem format_failed {i : Invocation} {f : ProcessFailure} {log : List Invocation}
    (hi : c.invocation (host.machine w.log) w.buffer range = .ok i)
    (h : host.run i w.log = (.error f, log)) :
    c.format host range w = (.error (.process f), { w with log }) := by
  unfold format
  rw [Effect.bind_get]
  dsimp only
  rw [hi, Effect.bind_done]
  exact Effect.bind_error (Working.commands_error h _) _

theorem format_exited {i : Invocation} {out : Output} {log : List Invocation}
    (hi : c.invocation (host.machine w.log) w.buffer range = .ok i)
    (h : host.run i w.log = (.ok out, log)) :
    c.format host range w =
      if out.ok then
        (.ok (out.stdout != w.buffer.lines),
          { w with log, buffer := { w.buffer with lines := out.stdout } })
      else (.error (.exited c.name out.code out.stderr), { w with log }) := by
  unfold format
  rw [Effect.bind_get]
  dsimp only
  rw [hi, Effect.bind_done, Effect.bind_ok (Working.commands_ok h _)]
  cases hok : out.ok with
  | false => rfl
  | true =>
    rw [if_neg (by decide), if_pos rfl]
    by_cases hout : out.stdout = w.buffer.lines
    · rw [if_pos hout, hout, bne_self_eq_false]
      rfl
    · rw [if_neg hout, bne_iff_ne.mpr hout, ← Buffer.setLines_all]
      rfl

/-- All that a request can do. It is refused and nothing happens; or one command runs and the buffer
stays; or the command exits with zero, and its lines become those of the buffer. -/
theorem format_cases :
    (∃ f, c.format host range w = (.error f, w)) ∨
    ∃ i, c.invocation (host.machine w.log) w.buffer range = .ok i ∧
      ((∃ f, (∀ stdout stderr, host w.log i ≠ .exited 0 stdout stderr) ∧
        c.format host range w = (.error f, { w with log := w.log ++ [i] })) ∨
      ∃ stdout stderr, host w.log i = .exited 0 stdout stderr ∧
        c.format host range w =
          (.ok (Text.outputLines (Text.decodeLossy stdout) != w.buffer.lines),
            { w with
              log := w.log ++ [i]
              buffer :=
                { w.buffer with lines := Text.outputLines (Text.decodeLossy stdout) } })) := by
  cases hi : c.invocation (host.machine w.log) w.buffer range with
  | error f => exact .inl ⟨f, c.format_refused host range w hi⟩
  | ok i =>
    cases henc : i.stdin.any fun s => !s.isEncodable with
    | true =>
      exact .inl ⟨_, c.format_failed host range w hi (host.run_unencodable henc w.log)⟩
    | false =>
      have hrun := host.run_encodable henc w.log
      refine .inr ⟨i, rfl, ?_⟩
      cases hout : (host w.log i).output i.command with
      | error f =>
        rw [hout] at hrun
        refine .inl ⟨_, ?_, c.format_failed host range w hi hrun⟩
        intro stdout stderr hr
        rw [hr] at hout
        cases hout
      | ok out =>
        rw [hout] at hrun
        have hformat := c.format_exited host range w hi hrun
        cases hok : out.ok with
        | false =>
          rw [hok, if_neg Bool.false_ne_true] at hformat
          refine .inl ⟨_, ?_, hformat⟩
          intro stdout stderr hr
          rw [hr] at hout
          cases hout
          cases hok
        | true =>
          rw [hok, if_pos rfl] at hformat
          obtain ⟨stdout, stderr, hr, hlines⟩ := Response.output_ok hout hok
          rw [hlines] at hformat
          exact .inr ⟨stdout, stderr, hr, hformat⟩

end Client

end Hunkwise
