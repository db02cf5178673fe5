import Hunkwise.Proofs.Calls

/-! Limits on the passes of a run. A run is a row of rounds, passes that each end with a call that
changes the text, and then it ends in one way or another. A limit only cuts the row off: a run that
ended by itself is the same under any larger limit, and one that was cut off made the first calls of
the longer run. -/

namespace Hunkwise.Converge

open Diff

variable {σ ε : Type} {t : Target σ ε} {o : Options} {limit limit' : Option Nat} {comparison : Text}
  {before : List Text} {hs : List Hunk} {s after final : σ} {log log' calls : List (Call σ)}
  {rounds : List (List (Call σ))} {fuel fuel' n : Nat} {report : Report}

section Counting

variable {R : Nat → σ → Prop}

/-- What every call that succeeds carries from a number to the next holds of the number of calls. -/
theorem formatHunks_counted
    (hcall : ∀ n s range, R n s → (t.format range s).1 = .ok () → R (n + 1) (t.format range s).2)
    {k : Nat} {ended : PassEnd ε} (h : formatHunks t before hs k s = (ended, after))
    (hended : ended = .settled n ∨ ended = .changed n) (hR : R k s) : R n after := by
  induction hs generalizing k s with
  | nil =>
    cases h
    simp only [PassEnd.settled.injEq, reduceCtorEq, or_false] at hended
    exact hended ▸ hR
  | cons g hs ih =>
    cases hd : g.isDeletion with
    | true =>
      rw [formatHunks_deletion hd] at h
      exact ih h hR
    | false =>
      cases hr : hunkRange before g with
      | none =>
        rw [formatHunks_missing hd hr] at h
        cases h
        simp at hended
      | some range =>
        rw [formatHunks_call hd hr] at h
        split at h
        · cases h
          simp at hended
        · next hok =>
          have hnext := hcall k s range hR hok
          split at h
          · exact ih h hnext
          · cases h
            simp only [reduceCtorEq, PassEnd.changed.injEq, false_or] at hended
            exact hended ▸ hnext

theorem pass_counted
    (hcall : ∀ n s range, R n s → (t.format range s).1 = .ok () → R (n + 1) (t.format range s).2)
    {ended : PassEnd ε} (h : pass t o comparison s = (ended, after))
    (hended : ended = .settled n ∨ ended = .changed n) (hR : R 0 s) : R n after := by
  unfold pass at h
  split at h
  · cases h
    simp at hended
  · exact formatHunks_counted hcall h hended hR

theorem run_counted
    (hcall : ∀ n s range, R n s → (t.format range s).1 = .ok () → R (n + 1) (t.format range s).2)
    {settled : Report} (h : run t o limit comparison fuel report s = (.ok settled, after))
    (hR : R report.formatCalls s) : R settled.formatCalls after := by
  induction fuel generalizing report s with
  | zero => cases h
  | succ fuel ih =>
    have hpass {n : Nat} {ended : PassEnd ε} {next : σ}
        (hp : pass t o comparison s = (ended, next))
        (hended : ended = .settled n ∨ ended = .changed n) : R (report.formatCalls + n) next :=
      pass_counted (R := fun n => R (report.formatCalls + n)) (fun n => hcall _) hp hended hR
    unfold run at h
    split at h
    · cases h
    · split at h
      · next hp =>
        cases h
        exact hpass hp (.inl rfl)
      · next hp => exact ih h (hpass hp (.inr rfl))
      · cases h

end Counting

section Rounds

theorem shifted_simulates (log : List (Call σ)) :
    t.recorded.Simulates t.recorded fun a b => a.1 = b.1 ∧ a.2 = log ++ b.2 where
  lines := by rintro a b ⟨h, -⟩; simp [h]
  result := by rintro range a b ⟨h, -⟩; simp [Target.recorded, h]
  after := by
    rintro range ⟨s, log'⟩ ⟨s', calls⟩ ⟨hs, hlog⟩
    dsimp only at hs hlog
    simp [Target.recorded, hs, hlog]

theorem pass_recorded_append (log : List (Call σ)) {ended : PassEnd ε}
    (h : pass t.recorded o comparison (s, []) = (ended, after, calls)) :
    pass t.recorded o comparison (s, log) = (ended, after, log ++ calls) := by
  have hstart : (s, log).1 = (s, ([] : List (Call σ))).1 ∧ (s, log).2 = log ++ (s, []).2 := by simp
  obtain ⟨hend, hstate, hlog⟩ := pass_simulates (shifted_simulates (t := t) log) hstart o comparison
  rw [h] at hend hstate hlog
  exact Prod.ext hend (Prod.ext hstate hlog)

/-- Of the calls of a pass that ended in a change, only the last one changed the text: it turned the
one that the pass began with into the one that it left. -/
theorem formatHunks_changed {k : Nat} (hj : Text.join (t.lines s) = Text.join before)
    (h : formatHunks t.recorded before hs k (s, log) = (.changed n, after, log')) :
    ∃ kept last, log' = log ++ (kept ++ [last]) ∧
      (∀ c ∈ kept, Text.join (t.lines c.after) = Text.join (t.lines c.before)) ∧
      Text.join (t.lines last.after) ≠ Text.join (t.lines last.before) ∧
      Text.join (t.lines last.before) = Text.join before ∧ last.after = after := by
  induction hs generalizing k s log with
  | nil => cases h
  | cons g hs ih =>
    cases hd : g.isDeletion with
    | true =>
      rw [formatHunks_deletion hd] at h
      exact ih hj h
    | false =>
      cases hr : hunkRange before g with
      | none =>
        rw [formatHunks_missing hd hr] at h
        cases h
      | some range =>
        rw [formatHunks_recorded_call hd hr] at h
        dsimp only at h
        split at h
        · cases h
        · split at h
          · next hsame =>
            obtain ⟨kept, last, rfl, hkept, hlast⟩ := ih hsame h
            refine ⟨⟨range, s, (t.format range s).2⟩ :: kept, last, by simp, ?_, hlast⟩
            simpa [hj, hsame] using hkept
          · next hchanged =>
            cases h
            exact ⟨[], _, rfl, by simp, by rwa [hj], hj, rfl⟩

/-- A pass that ended in a change, with its calls: only the last one changed the text. -/
structure Round (t : Target σ ε) (o : Options) (comparison : Text) (s : σ) (calls : List (Call σ))
    (after : σ) : Prop where
  made : pass t.recorded o comparison (s, []) = (.changed calls.length, after, calls)
  changed : ∃ kept last, calls = kept ++ [last] ∧
    (∀ c ∈ kept, Text.join (t.lines c.after) = Text.join (t.lines c.before)) ∧
    Text.join (t.lines last.after) ≠ Text.join (t.lines last.before)

inductive Rounds (t : Target σ ε) (o : Options) (comparison : Text) :
    σ → List (List (Call σ)) → σ → Prop
  | done (s : σ) : Rounds t o comparison s [] s
  | next {s after final : σ} {calls : List (Call σ)} {rounds : List (List (Call σ))} :
      Round t o comparison s calls after → Rounds t o comparison after rounds final →
      Rounds t o comparison s (calls :: rounds) final

theorem length_of_pass {ended : PassEnd ε}
    (h : pass t.recorded o comparison (s, []) = (ended, after, calls))
    (hended : ended = .settled n ∨ ended = .changed n) : calls.length = n := by
  refine pass_counted (R := fun n s => s.2.length = n) ?_ h hended rfl
  intro n s range hn _
  simp [Target.recorded, hn]

theorem round_of_pass
    (h : pass t.recorded o comparison (s, []) = (.changed n, after, calls)) :
    n = calls.length ∧ Round t o comparison s calls after := by
  obtain rfl := length_of_pass h (.inr rfl)
  refine ⟨rfl, h, ?_⟩
  unfold pass at h
  split at h
  · cases h
  · obtain ⟨kept, last, hcalls, hkept, hlast, -⟩ := formatHunks_changed rfl h
    exact ⟨kept, last, by simpa using hcalls, hkept, hlast⟩

theorem Rounds.length_le (h : Rounds t o comparison s rounds final) :
    rounds.length ≤ rounds.flatten.length := by
  induction h with
  | done s => simp
  | next hround _ ih =>
    obtain ⟨kept, last, rfl, -⟩ := hround.changed
    simp only [List.length_cons, List.flatten_cons, List.length_append]
    omega

end Rounds

section Endings

def Report.afterRounds (r : Report) (rounds : List (List (Call σ))) : Report :=
  ⟨r.passes + rounds.length, r.formatCalls + rounds.flatten.length, r.mutations + rounds.length⟩

theorem Report.afterRounds_cons (r : Report) (calls : List (Call σ))
    (rounds : List (List (Call σ))) :
    r.afterRounds (calls :: rounds) =
      Report.afterRounds ⟨r.passes + 1, r.formatCalls + calls.length, r.mutations + 1⟩ rounds := by
  simp only [Report.afterRounds, List.length_cons, List.flatten_cons, List.length_append,
    Report.mk.injEq]
  omega

/-- How a run ends that has no round to go: it is out of fuel, it is cut off, or its next pass, with
the given calls, settles or stops. -/
inductive Ending (t : Target σ ε) (o : Options) (limit : Option Nat) (comparison : Text)
    (fuel : Nat) (report : Report) (s : σ) :
    Except (Stop ε) Report → List (Call σ) → σ → Prop
  | outOfFuel : fuel = 0 → Ending t o limit comparison fuel report s (.error .outOfFuel) [] s
  | cutOff : limit.any (· ≤ report.passes) = true →
      Ending t o limit comparison fuel report s (.error (.unsettled report.passes)) [] s
  | settled {calls : List (Call σ)} {final : σ} :
      pass t.recorded o comparison (s, []) = (.settled calls.length, final, calls) →
      Ending t o limit comparison fuel report s
        (.ok ⟨report.passes + 1, report.formatCalls + calls.length, report.mutations⟩) calls final
  | stopped {why : Stop ε} {calls : List (Call σ)} {final : σ} :
      pass t.recorded o comparison (s, []) = (.stopped why, final, calls) →
      Ending t o limit comparison fuel report s (.error why) calls final

theorem run_cut_off (h : limit.any (· ≤ report.passes) = true) (t : Target σ ε) (o : Options)
    (comparison : Text) (fuel : Nat) (s : σ) :
    run t o limit comparison (fuel + 1) report s = (.error (.unsettled report.passes), s) := by
  simp [run, h]

theorem run_pass (h : limit.any (· ≤ report.passes) = false) (t : Target σ ε) (o : Options)
    (comparison : Text) (fuel : Nat) (s : σ) :
    run t o limit comparison (fuel + 1) report s =
      match pass t o comparison s with
      | (.settled n, s) =>
        (.ok ⟨report.passes + 1, report.formatCalls + n, report.mutations⟩, s)
      | (.changed n, s) => run t o limit comparison fuel
          ⟨report.passes + 1, report.formatCalls + n, report.mutations + 1⟩ s
      | (.stopped why, s) => (.error why, s) := by
  rw [run]
  exact if_neg (by simp [h])

/-- A run makes some rounds, as its limit and its fuel allow, and then it ends. -/
theorem run_rounds {ended : Except (Stop ε) Report}
    (h : run t.recorded o limit comparison fuel report (s, log) = (ended, final, log')) :
    ∃ rounds start last rest, Rounds t o comparison s rounds start ∧ fuel = rest + rounds.length ∧
      (∀ k < rounds.length, limit.any (· ≤ report.passes + k) = false) ∧
      log' = log ++ rounds.flatten ++ last ∧
      Ending t o limit comparison rest (report.afterRounds rounds) start ended last final := by
  induction fuel generalizing report s log with
  | zero =>
    cases h
    exact ⟨[], final, [], 0, .done final, rfl, by simp, by simp, .outOfFuel rfl⟩
  | succ fuel ih =>
    cases hlimit : limit.any (· ≤ report.passes) with
    | true =>
      rw [run_cut_off hlimit] at h
      cases h
      exact ⟨[], final, [], fuel + 1, .done final, rfl, by simp, by simp, .cutOff hlimit⟩
    | false =>
      rw [run_pass hlimit] at h
      cases hp : pass t.recorded o comparison (s, []) with
      | mk result state =>
        obtain ⟨after, calls⟩ := state
        rw [pass_recorded_append log hp] at h
        cases result with
        | settled n =>
          obtain rfl := length_of_pass hp (.inl rfl)
          cases h
          exact ⟨[], s, calls, fuel + 1, .done s, rfl, by simp, by simp, .settled hp⟩
        | stopped why =>
          cases h
          exact ⟨[], s, calls, fuel + 1, .done s, rfl, by simp, by simp, .stopped hp⟩
        | changed n =>
          obtain ⟨rfl, hround⟩ := round_of_pass hp
          obtain ⟨rounds, start, last, rest, hrounds, hfuel, hallowed, hlog, hend⟩ := ih h
          refine ⟨calls :: rounds, start, last, rest, .next hround hrounds, ?_, ?_, ?_, ?_⟩
          · simp only [List.length_cons]
            omega
          · rintro (_ | k) hk
            · exact hlimit
            · rw [← Nat.succ_add_eq_add_succ]
              exact hallowed k (by simpa using hk)
          · simp [hlog]
          · rwa [Report.afterRounds_cons]

theorem pass_stopped {why : Stop ε} (h : (pass t o comparison s).1 = .stopped why) :
    why ≠ .outOfFuel ∧ ∀ n, why ≠ .unsettled n := by
  unfold pass at h
  split at h
  · cases h
    simp
  · rcases formatHunks_stopped h with ⟨rfl, -⟩ | ⟨e, -, -, rfl, -⟩ <;> simp

end Endings

section Limits

def Allows (limit' limit : Option Nat) : Prop :=
  ∀ passes, limit.any (· ≤ passes) = false → limit'.any (· ≤ passes) = false

theorem allows_refl (limit : Option Nat) : Allows limit limit := fun _ h => h

theorem allows_none (limit : Option Nat) : Allows none limit := fun _ _ => rfl

theorem allows_some {m m' : Nat} (h : m ≤ m') : Allows (some m') (some m) := by
  intro passes
  simp only [Option.any_some, decide_eq_false_iff_not]
  omega

/-- A run that did not use up its fuel is the same with more of it, and under any limit that allows
as much and cuts it off where it was cut off. -/
theorem run_extend (hfuel : fuel ≤ fuel') (hallow : Allows limit' limit)
    (hne : (run t o limit comparison fuel report s).1 ≠ .error .outOfFuel)
    (hcut : ∀ n, (run t o limit comparison fuel report s).1 = .error (.unsettled n) →
      limit'.any (· ≤ n) = true) :
    run t o limit' comparison fuel' report s = run t o limit comparison fuel report s := by
  induction fuel generalizing fuel' report s with
  | zero => exact absurd rfl hne
  | succ fuel ih =>
    obtain ⟨fuel', rfl⟩ : ∃ k, fuel' = k + 1 := ⟨fuel' - 1, by omega⟩
    cases hlimit : limit.any (· ≤ report.passes) with
    | true =>
      rw [run_cut_off hlimit] at hcut ⊢
      exact run_cut_off (hcut _ rfl) t o comparison fuel' s
    | false =>
      rw [run_pass hlimit] at hne hcut ⊢
      rw [run_pass (hallow _ hlimit)]
      split at hne <;> simp_all only
      exact ih (by omega) hne hcut

theorem run_log_prefix :
    log <+: (run t.recorded o limit comparison fuel report (s, log)).2.2 := by
  cases h : run t.recorded o limit comparison fuel report (s, log) with
  | mk ended state =>
    obtain ⟨rounds, -, last, -, -, -, -, hlog, -⟩ := run_rounds h
    rw [hlog, List.append_assoc]
    apply List.prefix_append

/-- A run makes the first calls of any run that is allowed more. -/
theorem run_prefix (hfuel : fuel ≤ fuel') (hallow : Allows limit' limit) :
    (run t.recorded o limit comparison fuel report (s, log)).2.2 <+:
      (run t.recorded o limit' comparison fuel' report (s, log)).2.2 := by
  induction fuel generalizing fuel' report s log with
  | zero => exact run_log_prefix
  | succ fuel ih =>
    obtain ⟨fuel', rfl⟩ : ∃ k, fuel' = k + 1 := ⟨fuel' - 1, by omega⟩
    cases hlimit : limit.any (· ≤ report.passes) with
    | true =>
      rw [run_cut_off hlimit]
      exact run_log_prefix
    | false =>
      rw [run_pass hlimit, run_pass (hallow _ hlimit)]
      split
      · exact List.prefix_refl _
      · exact ih (by omega)
      · exact List.prefix_refl _

/-- With fuel for one pass more than the limit allows, a run does not use it up. -/
theorem run_ne_outOfFuel {m : Nat} (hm : m < fuel) :
    (run t o (some m) comparison fuel {} s).1 ≠ .error .outOfFuel := by
  intro h
  obtain ⟨log, hlog⟩ := exists_run_recorded (Prod.ext h rfl) []
  obtain ⟨rounds, start, last, rest, -, hfuel, hallowed, -, hend⟩ := run_rounds hlog
  cases hend with
  | outOfFuel hrest =>
    have := hallowed m (by omega)
    simp at this
  | stopped hp => exact (pass_stopped (congrArg Prod.fst hp)).1 rfl

/-- A run that was cut off has made as many rounds as its limit allows, and nothing else. -/
theorem run_unsettled {m : Nat}
    (h : run t.recorded o (some m) comparison fuel {} (s, []) =
      (.error (.unsettled n), final, calls)) :
    n = m ∧ ∃ rounds, Rounds t o comparison s rounds final ∧ rounds.length = m ∧
      calls = rounds.flatten := by
  obtain ⟨rounds, start, last, rest, hrounds, -, hallowed, hlog, hend⟩ := run_rounds h
  cases hend with
  | cutOff hlimit =>
    have hle : m ≤ rounds.length := by simpa [Report.afterRounds] using hlimit
    have hge : rounds.length ≤ m := by
      refine Nat.le_of_not_lt fun hlt => ?_
      have := hallowed m hlt
      simp at this
    have hm := Nat.le_antisymm hge hle
    refine ⟨?_, rounds, hrounds, hm, by simpa using hlog⟩
    simp [Report.afterRounds, hm]
  | stopped hp => exact absurd rfl ((pass_stopped (congrArg Prod.fst hp)).2 n)

/-- A run that settled has counted one mutation for each round, and a pass more. -/
theorem run_settled_report {settled : Report}
    (h : (run t o limit comparison fuel {} s).1 = .ok settled) :
    settled.passes = settled.mutations + 1 ∧ settled.mutations ≤ settled.formatCalls := by
  obtain ⟨log, hlog⟩ := exists_run_recorded (Prod.ext h rfl) []
  obtain ⟨rounds, start, last, rest, hrounds, -, -, -, hend⟩ := run_rounds hlog
  cases hend with
  | settled hp =>
    have := hrounds.length_le
    simp only [Report.afterRounds, Nat.zero_add, true_and]
    omega

/-- Fuel beyond what the limit calls for makes no difference. -/
theorem run_limited_eq {m : Nat} (hm : m < fuel) :
    run t o (some m) comparison fuel {} s = run t o (some m) comparison (m + 1) {} s := by
  refine run_extend hm (allows_refl _) (run_ne_outOfFuel (Nat.lt_succ_self m)) fun n hn => ?_
  obtain ⟨log, hlog⟩ := exists_run_recorded (Prod.ext hn rfl) []
  simp [(run_unsettled hlog).1]

end Limits

/-- A limit only cuts a run off: one that ends by itself is the same under any larger limit and under
none, and the calls of one that is cut off are the first ones of the longer run. -/
theorem pass_limit_only_truncates (t : Target σ ε) (o : Options) (comparison : Text) (s : σ)
    {m m' fuel fuel' : Nat} (hm : m ≤ m') (hfuel : m < fuel) (hfuel' : m' < fuel') :
    let short := run t o (some m) comparison fuel {} s
    short.1 ≠ .error .outOfFuel ∧
    ((∀ n, short.1 ≠ .error (.unsettled n)) → ∀ limit ∈ [some m', none],
      run t o limit comparison fuel' {} s = short ∧
        runCalls t o limit comparison fuel' s = runCalls t o (some m) comparison fuel s) ∧
    (∀ n, short.1 = .error (.unsettled n) → n = m ∧
      (∃ rounds, Rounds t o comparison s rounds short.2 ∧ rounds.length = m ∧
        runCalls t o (some m) comparison fuel s = rounds.flatten) ∧
      runCalls t o (some m) comparison fuel s <+: runCalls t o (some m') comparison fuel' s) ∧
    ∀ limit fuel report, (run t o limit comparison fuel {} s).1 = .ok report →
      report.passes = report.mutations + 1 ∧ report.mutations ≤ report.formatCalls := by
  intro short
  have hne : short.1 ≠ .error .outOfFuel := run_ne_outOfFuel hfuel
  refine ⟨hne, ?_, ?_, fun _ _ _ => run_settled_report⟩
  · intro hsettled limit hlimit
    have hallow : Allows limit (some m) := by
      simp only [List.mem_cons, List.not_mem_nil, or_false] at hlimit
      rcases hlimit with rfl | rfl
      · exact allows_some hm
      · exact allows_none _
    have hend : (run t.recorded o (some m) comparison (m + 1) {} (s, [])).1 = short.1 := by
      rw [← run_limited_eq hfuel]
      exact congrArg Prod.fst (run_recorded t o (some m) comparison fuel {} s [])
    have hsame : run t.recorded o limit comparison fuel' {} (s, []) =
        run t.recorded o (some m) comparison fuel {} (s, []) := by
      rw [run_limited_eq hfuel]
      refine run_extend (by omega) hallow (hend ▸ hne) fun n hn => ?_
      exact absurd (hend ▸ hn) (hsettled n)
    refine ⟨?_, congrArg (fun r => r.2.2) hsame⟩
    rw [← run_recorded t o limit comparison fuel' {} s [], hsame, run_recorded]
  · intro n hn
    obtain ⟨calls, hcalls⟩ := exists_run_recorded (Prod.ext hn rfl) []
    obtain ⟨hnm, hrounds⟩ := run_unsettled hcalls
    refine ⟨hnm, by rwa [runCalls, hcalls], ?_⟩
    unfold runCalls
    rw [run_limited_eq hfuel]
    exact run_prefix (by omega) (allows_some hm)

def Target.marking : Target (List Text) Empty where
  lines := id
  format _ ls := (.ok (), ls.dropLast ++ [ls.getLast?.getD "" ++ "!"])

/-- A buffer that never settles is cut off after two rounds, whose calls are the first ones of the
run that is cut off after three; one that settles in its second pass is not cut off by a limit of
two. -/
theorem pass_limit_two_three :
    (run Target.marking {} (some 2) "a" 3 {} ["b"] =
        (Except.error (.unsettled 2), (["b!!"] : List Text)) ∧
      (∃ rounds, Rounds Target.marking {} "a" ["b"] rounds ["b!!"] ∧ rounds.length = 2) ∧
      runCalls Target.marking {} (some 2) "a" 3 ["b"] <+:
        runCalls Target.marking {} (some 3) "a" 4 ["b"]) ∧
    run (Target.writing ["x", "y"]) {} (some 2) "a" 3 {} ["b"] =
        (Except.ok ⟨2, 2, 1⟩, (["x", "y"] : List Text)) ∧
      run (Target.writing ["x", "y"]) {} none "a" 4 {} ["b"] =
        (Except.ok ⟨2, 2, 1⟩, (["x", "y"] : List Text)) := by
  have hcut : run Target.marking {} (some 2) "a" 3 {} ["b"] =
      (Except.error (.unsettled 2), (["b!!"] : List Text)) := rfl
  have hsettles : run (Target.writing ["x", "y"]) {} (some 2) "a" 3 {} ["b"] =
      (Except.ok ⟨2, 2, 1⟩, (["x", "y"] : List Text)) := rfl
  have hm : 2 ≤ 3 := by decide
  obtain ⟨-, -, hcalls, -⟩ := pass_limit_only_truncates Target.marking {} "a" ["b"] hm
    (Nat.lt_succ_self 2) (Nat.lt_succ_self 3)
  obtain ⟨-, hsame, -, -⟩ := pass_limit_only_truncates (Target.writing ["x", "y"]) {} "a" ["b"] hm
    (Nat.lt_succ_self 2) (Nat.lt_succ_self 3)
  rw [hcut] at hcalls
  rw [hsettles] at hsame
  obtain ⟨-, ⟨rounds, hrounds, hlength, -⟩, hprefix⟩ := hcalls 2 rfl
  obtain ⟨hnone, -⟩ := hsame (by simp) none (by simp)
  exact ⟨⟨hcut, ⟨rounds, hrounds, hlength⟩, hprefix⟩, hsettles, hnone⟩

end Hunkwise.Converge
