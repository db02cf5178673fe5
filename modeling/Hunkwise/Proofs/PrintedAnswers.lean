import Hunkwise.Proofs.ReportedText

/-! Questions whose commands exit with zero. What such a command wrote is read as a text, and the
query goes on with the lines of that text; nothing else of the answer counts. -/

namespace Hunkwise

open Effect

namespace Response

def Prints (r : Response) (s : Text) : Prop :=
  ∃ stdout stderr, r = .exited 0 stdout stderr ∧ Text.decodeLossy stdout = s

/-- The command prints some lines, with or without a newline after the last one. -/
def PrintsLines (r : Response) (ls : List Text) : Prop :=
  r.Prints (Text.terminated ls) ∨ r.Prints (Text.join ls)

variable {r : Response} {ls : List Text}

theorem PrintsLines.exists_prints (h : r.PrintsLines ls) (hls : Text.Unbroken ls)
    (hblank : ⟨[]⟩ ∉ ls) : ∃ s, r.Prints s ∧ s.outputLines = ls := by
  have hne : ls ≠ [⟨[]⟩] := by
    rintro rfl
    exact hblank List.mem_cons_self
  rcases h with h | h
  · exact ⟨_, h, Text.outputLines_terminated hne hls⟩
  · refine ⟨_, h, (Text.outputLines_join hne hls).mpr ?_⟩
    exact fun hlast => hblank (List.mem_of_getLast? hlast)

/-- Of the lines that a command prints, those that a reader keeps are read as they were printed, if
it does not keep empty ones. -/
theorem PrintsLines.exists_filter {p : Text → Bool} (h : r.PrintsLines ls)
    (hls : Text.Unbroken ls) (hp : p ⟨[]⟩ = false) :
    ∃ s, r.Prints s ∧ s.outputLines.filter p = ls.filter p := by
  rcases h with h | h
  · refine ⟨_, h, ?_⟩
    cases ls with
    | nil => rfl
    | cons l ls =>
      rw [Text.filter_outputLines hp, Text.terminated, if_neg (by simp),
        Text.splitAt_append_newline, List.filter_append, Text.filter_splitAt_join hp hls]
      simp [hp]
  · refine ⟨_, h, ?_⟩
    rw [Text.filter_outputLines hp, Text.filter_splitAt_join hp hls]

end Response

namespace Vcs.Repository

variable {host : Host} {r : Repository} {path relative s : Text} {log : List Invocation}

theorem answered {α : Type} {directory : Option Text} {args : List Text}
    (h : (host log (r.invocation args directory)).Prints s) (read : List Text → Except Failure α)
    (e : Failure) :
    (r.runIn host directory args >>= fun out =>
      if out.ok then ExceptT.mk (pure (read out.stdout)) else throw e) log =
      (read s.outputLines, log ++ [r.invocation args directory]) := by
  obtain ⟨stdout, stderr, hexit, rfl⟩ := h
  have hrun : r.runIn host directory args log =
      (.ok ⟨0, (Text.decodeLossy stdout).outputLines, (Text.decodeLossy stderr).outputLines⟩,
        log ++ [r.invocation args directory]) := by
    apply (adapt_eq_ok _).mpr
    rw [Host.run_encodable host rfl, hexit]
    rfl
  rw [bind_ok hrun]
  rfl

theorem bind_relativePath {α : Type} (hr : r.relativize path = .ok relative)
    (f : Text → Commands Failure α) : (r.relativePath path >>= f) log = f relative log := by
  rw [relativePath, hr, bind_done]

theorem locate_answered (h : (host log (r.rootQuestion path)).Prints s) :
    locate host r path log =
      (.ok { r with root := some (Text.join s.outputLines) }, log ++ [r.rootQuestion path]) := by
  unfold locate
  exact answered h (fun ls => .ok { r with root := some (Text.join ls) }) _

theorem status_listed (hbackend : r.backend = .git) (hr : r.relativize path = .ok relative)
    (h : (host log (r.invocation (Git.statusQuery relative) r.root)).Prints s) :
    status host r path log =
      (Git.readListing s.outputLines, log ++ r.statusQuestions relative) := by
  unfold status statusQuestions
  rw [hbackend]
  apply (bind_relativePath hr _).trans
  exact answered h Git.readListing _

theorem conflicts_answered (hr : r.relativize path = .ok relative)
    (h : (host log (r.invocation (Mercurial.conflictsQuery relative) r.root)).Prints s) :
    conflicts host r path log =
      (.ok (Mercurial.readConflicts s.outputLines),
        log ++ [r.invocation (Mercurial.conflictsQuery relative) r.root]) := by
  apply (bind_relativePath hr _).trans
  exact answered h (fun ls => .ok (Mercurial.readConflicts ls)) _

theorem status_compared {merges changes : Text} (hbackend : r.backend = .mercurial)
    (hr : r.relativize path = .ok relative)
    (hmerges : (host log (r.invocation (Mercurial.conflictsQuery relative) r.root)).Prints merges)
    (hchanges : (host (log ++ [r.invocation (Mercurial.conflictsQuery relative) r.root])
      (r.invocation (Mercurial.statusQuery relative) r.root)).Prints changes) :
    status host r path log =
      (.ok (Mercurial.readStatus (Mercurial.readConflicts merges.outputLines) changes.outputLines),
        log ++ r.statusQuestions relative) := by
  unfold status statusQuestions
  rw [hbackend]
  apply (bind_ok (conflicts_answered hr hmerges) _).trans
  apply (bind_relativePath hr _).trans
  apply (answered hchanges
    (fun ls => .ok (Mercurial.readStatus (Mercurial.readConflicts merges.outputLines) ls)) _).trans
  rw [List.append_assoc]
  rfl

end Vcs.Repository

/-- A request stops at a file with conflicts: nothing is run after the questions about its status,
and the buffer and the notices stay. -/
theorem Attachment.formatModifications_conflicted {host : Host} {a : Attachment}
    {limits : RequestLimits} {w : Work} {repo found : Vcs.Repository} {s : Vcs.FileStatus}
    {log log' : List Invocation}
    (hrepo : Vcs.Repository.ofName a.config.vcs limits.timeout = .ok repo)
    (hfound : repo.locate host w.buffer.path w.log = (.ok found, log))
    (hstatus : found.status host w.buffer.path log = (.ok s, log')) (htracked : s.tracked = true)
    (hconflicted : s.conflicted = true) :
    a.formatModifications host limits w =
      (.ok { client := a.client.name, status := .conflicts }, { w with log := log' }) := by
  rw [formatModifications_known hrepo hfound hstatus]
  unfold formatTracked
  rw [bind_get, htracked, hconflicted]
  rfl

end Hunkwise
