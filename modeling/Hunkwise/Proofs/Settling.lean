import Hunkwise.Proofs.Calls
import Mathlib.Data.List.Forall2

/-! Runs that settle. The last pass of such a run makes one call for every hunk of the final buffer
that has new lines, in order, and none of them changes the text. If a call does nothing but what its
range and the buffer's lines determine, another run makes just these calls again. -/

namespace Hunkwise.Converge

open Diff

variable {σ ε : Type} {t : Target σ ε} {o : Options} {limit : Option Nat} {comparison : Text}
  {before : List Text} {hs : List Hunk} {s after final : σ} {log log' : List (Call σ)}

inductive Restarts (t : Target σ ε) (o : Options) (comparison : Text) : σ → σ → Prop
  | refl (s : σ) : Restarts t o comparison s s
  | changed {s after final : σ} {calls : Nat} : pass t o comparison s = (.changed calls, after) →
      Restarts t o comparison after final → Restarts t o comparison s final

theorem run_settles {fuel : Nat} {report report' : Report}
    (h : run t o limit comparison fuel report s = (.ok report', final)) :
    limit.any (· ≤ report.passes) = false ∧
      ∃ start calls, Restarts t o comparison s start ∧
        pass t o comparison start = (.settled calls, final) := by
  induction fuel generalizing report s with
  | zero => cases h
  | succ fuel ih =>
    unfold run at h
    split at h
    · cases h
    · next hlimit =>
      refine ⟨by simpa using hlimit, ?_⟩
      cases hp : pass t o comparison s with
      | mk ended after =>
        rw [hp] at h
        cases ended with
        | settled calls =>
          obtain rfl : after = final := congrArg Prod.snd h
          exact ⟨s, calls, .refl s, hp⟩
        | changed calls =>
          obtain ⟨-, start, calls', hr, hlast⟩ := ih h
          exact ⟨start, calls', .changed hp hr, hlast⟩
        | stopped why => cases h

theorem Target.KeepsLines.recorded (hkeep : t.KeepsLines) : t.recorded.KeepsLines :=
  fun range s => hkeep range s.1

theorem Restarts.invariant {I : σ → Prop} (h : Restarts t o comparison s final)
    (hkeep : t.Keeps o comparison I) (hI : I s) : I final := by
  induction h with
  | refl s => exact hI
  | changed hp _ ih =>
    apply ih
    have := pass_invariant hkeep hI
    rwa [hp] at this

/-- The calls of a pass that settled: one for each hunk that is no deletion, in order, and none of
them changed the text. -/
theorem formatHunks_settled {calls n : Nat}
    (hspans : ∀ h ∈ hs, h.isDeletion = false →
      ∃ range, hunkRange before h = some range ∧ Spans before h range)
    (hset : formatHunks t.recorded before hs calls (s, log) = (.settled n, final, log'))
    (hj : Text.join (t.lines s) = Text.join before) :
    ∃ last, log' = log ++ last ∧ n = calls + last.length ∧
      List.Forall₂ (fun c h => Spans before h c.range) last (hs.filter fun h => !h.isDeletion) ∧
      (∀ c ∈ last, Text.join (t.lines c.after) = Text.join before) ∧
      Text.join (t.lines final) = Text.join before := by
  induction hs generalizing calls s log with
  | nil =>
    cases hset
    exact ⟨[], (List.append_nil _).symm, rfl, .nil, fun c hc => absurd hc List.not_mem_nil, hj⟩
  | cons h hs ih =>
    have hlater := fun g hg => hspans g (List.mem_cons_of_mem _ hg)
    cases hd : h.isDeletion with
    | true =>
      rw [formatHunks_deletion hd] at hset
      rw [List.filter_cons_of_neg (by simp [hd])]
      exact ih hlater hset hj
    | false =>
      obtain ⟨range, hr, hspan⟩ := hspans h List.mem_cons_self hd
      rw [formatHunks_recorded_call hd hr] at hset
      dsimp only at hset
      split at hset
      · cases hset
      · split at hset
        · next hj' =>
          obtain ⟨last, rfl, hn, hcover, hsame, hfinal⟩ := ih hlater hset hj'
          refine ⟨⟨range, s, (t.format range s).2⟩ :: last, List.append_assoc .., ?_, ?_, ?_,
            hfinal⟩
          · rw [hn, List.length_cons]; omega
          · rw [List.filter_cons_of_pos (by simp [hd])]
            exact .cons hspan hcover
          · intro c hc
            rcases List.mem_cons.mp hc with rfl | hc
            · exact hj'
            · exact hsame c hc
        · cases hset

theorem formatHunks_only_deletions (hd : ∀ h ∈ hs, h.isDeletion = true) (calls : Nat) (s : σ) :
    formatHunks t before hs calls s = (.settled calls, s) := by
  induction hs with
  | nil => rfl
  | cons h hs ih =>
    rw [formatHunks_deletion (hd h List.mem_cons_self)]
    exact ih fun g hg => hd g (List.mem_cons_of_mem _ hg)

/-- What a call does to the buffer is determined by its range and the buffer's lines. -/
def Target.ByLines (t : Target σ ε) : Prop :=
  ∀ range s₁ s₂, t.lines s₁ = t.lines s₂ →
    (t.format range s₁).1 = (t.format range s₂).1 ∧
      t.lines (t.format range s₁).2 = t.lines (t.format range s₂).2

/-- Two runs of calls that start from the same lines make the same calls and end alike. -/
def Lockstep (t : Target σ ε) (log₁ log₂ : List (Call σ))
    (r₁ r₂ : PassEnd ε × σ × List (Call σ)) : Prop :=
  r₁.1 = r₂.1 ∧ t.lines r₁.2.1 = t.lines r₂.2.1 ∧
    ∃ ranges, r₁.2.2.map Call.range = log₁.map Call.range ++ ranges ∧
      r₂.2.2.map Call.range = log₂.map Call.range ++ ranges

/-- Calls with the same range, from the same lines, keep two records in step. -/
theorem lockstep_simulates (ht : t.ByLines) (log₁ log₂ : List (Call σ)) :
    t.recorded.Simulates t.recorded fun s₁ s₂ =>
      t.lines s₁.1 = t.lines s₂.1 ∧
        ∃ ranges, s₁.2.map Call.range = log₁.map Call.range ++ ranges ∧
          s₂.2.map Call.range = log₂.map Call.range ++ ranges where
  lines _ _ h := h.1
  result range s₁ s₂ h := (ht range s₁.1 s₂.1 h.1).1
  after := by
    rintro range s₁ s₂ ⟨hl, ranges, h₁, h₂⟩
    refine ⟨(ht range s₁.1 s₂.1 hl).2, ranges ++ [range], ?_, ?_⟩
    · rw [Target.recorded_format, List.map_append, h₁, List.append_assoc]
      rfl
    · rw [Target.recorded_format, List.map_append, h₂, List.append_assoc]
      rfl

theorem formatHunks_lockstep (ht : t.ByLines) {s₁ s₂ : σ} (hl : t.lines s₁ = t.lines s₂)
    (before : List Text) (hs : List Hunk) (calls : Nat) (log₁ log₂ : List (Call σ)) :
    Lockstep t log₁ log₂ (formatHunks t.recorded before hs calls (s₁, log₁))
      (formatHunks t.recorded before hs calls (s₂, log₂)) :=
  formatHunks_simulates (lockstep_simulates ht log₁ log₂)
    ⟨hl, [], (List.append_nil _).symm, (List.append_nil _).symm⟩ before hs calls

theorem pass_recorded_eq (hhs : textHunks o comparison (Text.join (t.lines s)) = some hs)
    (log : List (Call σ)) :
    pass t.recorded o comparison (s, log) = formatHunks t.recorded (t.lines s) hs 0 (s, log) := by
  rw [pass, Target.recorded_lines, hhs]

theorem filter_newCount_pos {old new : Text} (hhs : textHunks o old new = some hs) :
    (hs.filter fun h => 0 < h.newCount) = hs.filter fun h => !h.isDeletion := by
  apply List.filter_congr
  intro h hh
  have := (hunks_within hhs h hh).new_count
  rw [Hunk.isDeletion, Bool.eq_iff_iff]
  simp
  omega

/-- A pass that settled made its calls for the hunks of the text it left; the lines are the same too
if there was a hunk to format. -/
theorem pass_settled {n : Nat} (hkeep : t.KeepsLines) (hu : Text.Unbroken (t.lines s))
    (hp : pass t.recorded o comparison (s, log) = (.settled n, final, log')) :
    Text.join (t.lines final) = Text.join (t.lines s) ∧
      ∃ hunks last, textHunks o comparison (Text.join (t.lines final)) = some hunks ∧
        log' = log ++ last ∧ n = last.length ∧
        List.Forall₂ (fun c h => Spans (t.lines final) h c.range) last
          (hunks.filter fun h => 0 < h.newCount) ∧
        (∀ c ∈ last, Text.join (t.lines c.after) = Text.join (t.lines final)) ∧
        ((∀ h ∈ hunks, h.isDeletion = true) ∨ t.lines final = t.lines s) := by
  have hfinal : Text.Unbroken (t.lines final) := by
    have := hkeep.pass_unbroken hu o comparison
    rwa [← pass_recorded t o comparison s log, hp] at this
  cases hhs : textHunks o comparison (Text.join (t.lines s)) with
  | none =>
    rw [pass, Target.recorded_lines, hhs] at hp
    cases hp
  | some hunks =>
    rw [pass_recorded_eq hhs] at hp
    obtain ⟨last, hlog, hn, hcalls, hsame, hj⟩ :=
      formatHunks_settled (fun h hh hd => (hunkRange_spans hu hhs hh hd).2.2) hp rfl
    -- no lines and one empty line have the same text, but then there is nothing to format
    have hlines : (∀ h ∈ hunks, h.isDeletion = true) ∨ t.lines final = t.lines s := by
      by_cases hd : ∀ h ∈ hunks, h.isDeletion = true
      · exact .inl hd
      · obtain ⟨h, hh, hd⟩ : ∃ h ∈ hunks, h.isDeletion = false := by simpa using hd
        exact .inr (lines_eq_of_join_eq hu hfinal hj hhs hh hd)
    rw [← filter_newCount_pos hhs] at hcalls
    refine ⟨hj, hunks, last, by rw [hj]; exact hhs, hlog, by omega, ?_, by rwa [hj], hlines⟩
    rcases hlines with hd | he
    · rw [filter_newCount_pos hhs, List.filter_eq_nil_iff.mpr (by simpa using hd)] at hcalls ⊢
      cases hcalls
      exact .nil
    · rwa [he]

theorem pass_again {last : List (Call σ)} (ht : t.ByLines)
    (hhs : textHunks o comparison (Text.join (t.lines final)) = some hs)
    (hj : Text.join (t.lines final) = Text.join (t.lines s))
    (hlines : (∀ h ∈ hs, h.isDeletion = true) ∨ t.lines final = t.lines s)
    (hp : pass t.recorded o comparison (s, log) = (.settled last.length, final, log ++ last)) :
    ∃ end₂ again, pass t.recorded o comparison (final, []) = (.settled last.length, end₂, again) ∧
      again.map Call.range = last.map Call.range ∧
      Text.join (t.lines end₂) = Text.join (t.lines final) := by
  rw [pass_recorded_eq (by rw [← hj]; exact hhs)] at hp
  rw [pass_recorded_eq hhs]
  rcases hlines with hd | he
  · rw [formatHunks_only_deletions hd] at hp ⊢
    obtain rfl : last = [] := by
      have := congrArg Prod.fst hp
      exact List.eq_nil_of_length_eq_zero (PassEnd.settled.inj this).symm
    exact ⟨final, [], rfl, rfl, rfl⟩
  · obtain ⟨hend, hl, ranges, h₁, h₂⟩ := formatHunks_lockstep ht he.symm (t.lines s) hs 0 log []
    rw [he]
    rw [hp] at hend hl h₁
    dsimp only at hend hl h₁
    rw [List.map_append, List.append_right_inj] at h₁
    refine ⟨_, _, Prod.ext hend.symm rfl, ?_, ?_⟩
    · rw [h₂, h₁]
      rfl
    · rw [← hl, hj]

/-- `earlier` and `last` are the calls of a run from `s` that settled in `final`: those of the
passes that changed the buffer, and those of the last pass. -/
def LastPass (t : Target σ ε) (o : Options) (comparison : Text) (s final : σ)
    (earlier last : List (Call σ)) : Prop :=
  ∃ start, Restarts t.recorded o comparison (s, []) (start, earlier) ∧
    pass t.recorded o comparison (start, earlier) = (.settled last.length, final, earlier ++ last)

theorem pairwise_startLine {lines : List Text} {calls : List (Call σ)}
    (h : List.Forall₂ (fun c h => Spans lines h c.range) calls hs)
    (habove : hs.Pairwise Hunk.Above) :
    calls.Pairwise fun a b => a.range.startLine < b.range.startLine := by
  have hmap : calls.map (fun c => c.range.startLine) = hs.map Hunk.newStart := by
    clear habove
    induction h with
    | nil => rfl
    | cons hspan _ ih =>
      obtain ⟨line, -, hrange⟩ := hspan.whole
      rw [List.map_cons, List.map_cons, ih, hrange]
      rfl
  have hstarts : (hs.map Hunk.newStart).Pairwise (· < ·) :=
    List.pairwise_map.mpr (habove.imp Hunk.Above.new_lt)
  rw [← hmap] at hstarts
  exact List.pairwise_map.mp hstarts

/-- The last pass of a run that settled calls for each hunk with new lines of the final text, in order.
If calls depend on range and lines alone, the run can be repeated from there without a change. -/
theorem settled_run_formats_hunks (t : Target σ ε) (o : Options) (limit : Option Nat)
    (comparison : Text) (fuel : Nat) (s final : σ) (report : Report) (hkeep : t.KeepsLines)
    (hs : Text.Unbroken (t.lines s))
    (hrun : run t o limit comparison fuel {} s = (.ok report, final)) :
    ∃ earlier last, runCalls t o limit comparison fuel s = earlier ++ last ∧
      LastPass t o comparison s final earlier last ∧
      (∃ hunks, textHunks o comparison (Text.join (t.lines final)) = some hunks ∧
        List.Forall₂ (fun c h => Spans (t.lines final) h c.range) last
          (hunks.filter fun h => 0 < h.newCount)) ∧
      last.Pairwise (fun a b => a.range.startLine < b.range.startLine) ∧
      (∀ c ∈ last, Text.join (t.lines c.after) = Text.join (t.lines final)) ∧
      (t.ByLines → ∀ fuel, ∃ end₂ again,
        run t.recorded o limit comparison (fuel + 1) {} (final, []) =
          (.ok ⟨1, last.length, 0⟩, end₂, again) ∧
        again.map Call.range = last.map Call.range ∧
        Text.join (t.lines end₂) = Text.join (t.lines final)) := by
  obtain ⟨log, hlog⟩ := exists_run_recorded hrun []
  obtain ⟨hlimit, ⟨start, earlier⟩, n, hrestarts, hp⟩ := run_settles hlog
  have hstart : Text.Unbroken (t.lines start) :=
    hrestarts.invariant (unbroken_kept hkeep.recorded) hs
  obtain ⟨hj, hunks, last, hhs, rfl, rfl, hcalls, hsame, hlines⟩ := pass_settled hkeep hstart hp
  refine ⟨earlier, last, by rw [runCalls, hlog], ⟨start, hrestarts, hp⟩, ⟨hunks, hhs, hcalls⟩,
    pairwise_startLine hcalls ((hunks_above hhs).filter _), hsame, ?_⟩
  intro ht fuel
  obtain ⟨end₂, again, hagain, hranges, hend⟩ := pass_again ht hhs hj hlines hp
  refine ⟨end₂, again, ?_, hranges, hend⟩
  rw [run, if_neg (by rw [hlimit]; exact Bool.false_ne_true), hagain]
  simp only [Nat.zero_add]

/-- A line is split in the first pass; the second settles, and can be repeated. -/
theorem settled_run_split_line :
    let t := Target.writing ["a", "x", "y", "c"]
    let final : List Text := ["a", "x", "y", "c"]
    run t {} none "a\nb\nc" 3 {} ["a", "x;y", "c"] = (.ok ⟨2, 2, 1⟩, final) ∧ t.ByLines ∧
      ∃ earlier last, LastPass t {} "a\nb\nc" ["a", "x;y", "c"] final earlier last ∧
        ∃ end₂ again, run t.recorded {} none "a\nb\nc" 1 {} (final, []) =
            (.ok ⟨1, last.length, 0⟩, end₂, again) ∧
          again.map Call.range = last.map Call.range ∧ Text.join end₂ = Text.join final := by
  have hrun : run (Target.writing ["a", "x", "y", "c"]) {} none "a\nb\nc" 3 {} ["a", "x;y", "c"] =
      (Except.ok ⟨2, 2, 1⟩, (["a", "x", "y", "c"] : List Text)) := rfl
  intro t final
  have hkeep : t.KeepsLines := keepsLines_writing (by decide)
  have hs : Text.Unbroken (["a", "x;y", "c"] : List Text) := by decide
  have ht : t.ByLines := fun _ _ _ _ => ⟨rfl, rfl⟩
  obtain ⟨earlier, last, -, hlast, -, -, -, hagain⟩ :=
    settled_run_formats_hunks t {} none "a\nb\nc" 3 _ final _ hkeep hs hrun
  exact ⟨hrun, ht, earlier, last, hlast, hagain ht 0⟩

end Hunkwise.Converge
