import Hunkwise.Proofs.PassLimit
import Hunkwise.Proofs.SameLines
import Hunkwise.Proofs.Settling

/-! Runs with nothing to do. A buffer whose lines have the keys of the comparison text has no hunk with
new lines, so its first pass makes no call and ends the run. One buffer is read back from its text with
other lines, the one that is a single empty line; what its comparison text has is deleted there, and
deletions are not formatted. -/

namespace Hunkwise.Converge

open Diff

variable {σ ε : Type} {t : Target σ ε} {o : Options} {limit : Option Nat} {comparison : Text}
  {hs : List Hunk} {s : σ} {ls : List Text}

theorem isDeletion_of_no_lines {old : List Text} (h : hunks o old [] = some hs) :
    ∀ g ∈ hs, g.isDeletion = true := by
  intro g hg
  obtain ⟨-, -, -, hstart, hcount, hstop⟩ := hunks_within h g hg
  rw [Hunk.isDeletion, beq_iff_eq]
  simp only [List.length_nil] at hstop
  omega

theorem only_deletions (hu : Text.Unbroken ls)
    (hkeys : ls.map o.key = (Text.lines comparison).map o.key)
    (h : textHunks o comparison (Text.join ls) = some hs) : ∀ g ∈ hs, g.isDeletion = true := by
  unfold textHunks at h
  by_cases hblank : ls = [⟨[]⟩]
  · subst hblank
    exact isDeletion_of_no_lines h
  · rw [Text.lines_join hblank hu] at h
    rw [(hunks_eq_nil_iff h).mpr hkeys.symm]
    exact List.forall_mem_nil _

theorem pass_same_keys (hu : Text.Unbroken (t.lines s))
    (hkeys : (t.lines s).map o.key = (Text.lines comparison).map o.key)
    (hdepth : textHunks o comparison (Text.join (t.lines s)) ≠ none) :
    pass t o comparison s = (.settled 0, s) := by
  obtain ⟨hs, hhs⟩ := Option.ne_none_iff_exists'.mp hdepth
  unfold pass
  rw [hhs]
  exact formatHunks_only_deletions (only_deletions hu hkeys hhs) 0 s

theorem run_same_keys (hlimit : limit ≠ some 0) (hu : Text.Unbroken (t.lines s))
    (hkeys : (t.lines s).map o.key = (Text.lines comparison).map o.key)
    (hdepth : textHunks o comparison (Text.join (t.lines s)) ≠ none) (fuel : Nat) :
    run t o limit comparison (fuel + 1) {} s = (.ok { passes := 1 }, s) := by
  have hopen : limit.any (· ≤ ({} : Report).passes) = false := by
    cases limit with
    | none => rfl
    | some m =>
      have : m ≠ 0 := fun hm => hlimit (by rw [hm])
      simpa using this
  rw [run_pass hopen, pass_same_keys hu hkeys hdepth]

/-- There are no hunks between two lists of lines exactly if their keys are the same, and then a run
that may make a pass makes one, calls nothing, and leaves the buffer as it is. -/
theorem same_keys_need_no_call (o : Options) :
    (∀ {old new : List Text} {hs}, hunks o old new = some hs →
      (hs = [] ↔ old.map o.key = new.map o.key)) ∧
    ∀ {σ ε : Type} (t : Target σ ε) (limit : Option Nat) (comparison : Text) (fuel : Nat) (s : σ),
      limit ≠ some 0 → Text.Unbroken (t.lines s) →
      (t.lines s).map o.key = (Text.lines comparison).map o.key →
      textHunks o comparison (Text.join (t.lines s)) ≠ none →
      run t o limit comparison (fuel + 1) {} s =
          (.ok { passes := 1, formatCalls := 0, mutations := 0 }, s) ∧
        runCalls t o limit comparison (fuel + 1) s = [] := by
  refine ⟨hunks_eq_nil_iff, fun t limit comparison fuel s hlimit hu hkeys hdepth => ?_⟩
  refine ⟨run_same_keys hlimit hu hkeys hdepth fuel, ?_⟩
  have hrecorded : run t.recorded o limit comparison (fuel + 1) {} (s, []) =
      (.ok { passes := 1 }, s, []) :=
    run_same_keys (t := t.recorded) (s := (s, [])) hlimit hu hkeys hdepth fuel
  rw [runCalls, hrecorded]

/-- A carriage return that is not counted, before a formatter that would fail. -/
theorem other_returns_need_no_call :
    let o : Options := { method := .longestRuns }
    let t : Target (List Text) Unit := ⟨id, fun _ s => (.error (), s)⟩
    let comparison : Text := "a\r\nb\na"
    let ls : List Text := ["a", "b", "a\r"]
    hunks o (Text.lines comparison) ls = some [] ∧
      (Text.lines comparison).map o.key = ls.map o.key ∧ Text.Unbroken ls ∧
      textHunks o comparison (Text.join ls) ≠ none ∧
      run t o (some 1) comparison 1 {} ls =
        (.ok { passes := 1, formatCalls := 0, mutations := 0 }, ls) ∧
      runCalls t o (some 1) comparison 1 ls = [] := by
  intro o t comparison ls
  have hhunks : hunks o (Text.lines comparison) ls = some [] := by decide +kernel
  have hunbroken : Text.Unbroken ls := by decide +kernel
  have hdepth : textHunks o comparison (Text.join ls) ≠ none := by decide +kernel
  have hkeys := ((same_keys_need_no_call o).1 hhunks).mp rfl
  exact ⟨hhunks, hkeys, hunbroken, hdepth,
    (same_keys_need_no_call o).2 t (some 1) comparison 0 ls (by decide) hunbroken hkeys.symm hdepth⟩

end Hunkwise.Converge
