import Hunkwise.Proofs.FormatterChain
import Hunkwise.Proofs.RequestTurns
import Hunkwise.Proofs.Settling

/-! Hosts on which a command always answers the same. There the queries of a request have the same
results whenever they are made, and what a formatter does to a buffer depends on the buffer alone, if
its templates are always filled in the same. So a client that has formatted what differs from the
baseline finds nothing to change there when it is run again. -/

namespace Hunkwise

open Effect

variable {host : Host}

namespace Client

variable {c : Client} {range : Option LineRange} {w w' : Work}

/-- The client's commands are the same for the same buffer, whatever ran before: its templates show
nothing of the machine, or nothing that changes. -/
def Steady (host : Host) (c : Client) : Prop :=
  ∀ log log' b range,
    c.invocation (host.machine log) b range = c.invocation (host.machine log') b range

theorem target_keepsLines (host : Host) (c : Client) : (c.target host).KeepsLines := by
  intro range w hw
  rw [target_format]
  rcases c.format_cases host (some range) w with
    ⟨f, h⟩ | ⟨i, -, ⟨f, -, h⟩ | ⟨stdout, stderr, -, h⟩⟩
  · rw [h]; exact hw
  · rw [h]; exact hw
  · rw [h]; exact Text.unbroken_outputLines _

end Client

namespace Attachment

variable {a : Attachment} {limits : RequestLimits} {baseline : List Text} {w w' : Work}
  {o : Outcome}

def changesOutcome (a : Attachment) (r : Converge.Report) : Outcome :=
  { client := a.client.name, status := .formattedModifications, passes := r.passes
    formatCalls := r.formatCalls, mutations := r.mutations }

theorem formatChanges_eq_ok (host : Host) (a : Attachment) :
    a.formatChanges host limits baseline w = (.ok o, w') ↔
      ∃ report, Converge.run (a.client.target host) a.config.diff limits.passes
        (Text.join baseline) limits.fuel {} w = (.ok report, w') ∧ o = a.changesOutcome report := by
  constructor
  · intro h
    obtain ⟨report, w₁, hrun, hrest⟩ := bind_inv h
    cases hrest
    exact ⟨report, (adapt_eq_ok _).mp hrun, rfl⟩
  · rintro ⟨report, hrun, rfl⟩
    exact bind_ok ((adapt_eq_ok _).mpr hrun) _

/-- The file is tracked and free of conflicts, and `baseline` is what it is compared with. -/
def Compares (host : Host) (timeout : Json) (path : Text) (a : Attachment)
    (baseline : List Text) : Prop :=
  ∃ repo found status, Vcs.Repository.ofName a.config.vcs timeout = .ok repo ∧
    (∀ log, (repo.locate host path log).1 = .ok found) ∧
    (∀ log, (found.status host path log).1 = .ok status) ∧
    status.tracked = true ∧ status.conflicted = false ∧
    ∀ log, (found.baseline host path log).1 = .ok baseline

theorem bind_attempt {α β : Type} (act : Commands Vcs.Failure α)
    (f : Except Vcs.Failure α → Working RequestFailure β) (w : Work) :
    (attempt act >>= f) w = f (act w.log).1 { w with log := (act w.log).2 } := rfl

theorem formatModifications_known {repo found : Vcs.Repository} {status : Vcs.FileStatus}
    {log log' : List Invocation}
    (hrepo : Vcs.Repository.ofName a.config.vcs limits.timeout = .ok repo)
    (hfound : repo.locate host w.buffer.path w.log = (.ok found, log))
    (hstatus : found.status host w.buffer.path log = (.ok status, log')) :
    a.formatModifications host limits w =
      a.formatTracked host limits found status { w with log := log' } := by
  unfold formatModifications
  rw [bind_get, hrepo]
  dsimp only
  rw [bind_attempt, hfound]
  dsimp only
  rw [bind_attempt, hstatus]

end Attachment

/-- A baseline that a backend gave is the text of some file. -/
theorem Vcs.Repository.lines_join_baseline {r : Repository} {path : Text} {log : List Invocation}
    {baseline : List Text} (h : (r.baseline host path log).1 = .ok baseline) :
    Text.lines (Text.join baseline) = baseline := by
  obtain ⟨relative, log₁, -, h⟩ := bind_inv (Prod.ext h rfl)
  obtain ⟨out, log₂, hrun, h⟩ := bind_inv h
  split at h
  · next hok =>
    cases h
    have hrun := (adapt_eq_ok _).mp hrun
    rw [Host.run_encodable host rfl] at hrun
    obtain ⟨stdout, stderr, -, hstdout⟩ := Response.output_ok (congrArg Prod.fst hrun) hok
    rw [hstdout, Text.lines_join (Text.outputLines_ne_blank _) (Text.unbroken_outputLines _)]
  · cases h

theorem Attachment.Compares.lines_join {a : Attachment} {timeout : Json} {path : Text}
    {baseline : List Text} (h : a.Compares host timeout path baseline) :
    Text.lines (Text.join baseline) = baseline := by
  obtain ⟨-, found, -, -, -, -, -, -, hbaseline⟩ := h
  exact found.lines_join_baseline (hbaseline [])

end Hunkwise
