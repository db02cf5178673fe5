import Hunkwise.Proofs.PassLimit

/-! Runs whose changes take a measure of the text down. Every round of a run ends with a call that
changes the text, so there are no more rounds than the measure of the first text allows. Such a run
ends without a limit, and a limit above the measure is never reached. -/

namespace Hunkwise.Converge

open Diff

variable {σ ε : Type} {t : Target σ ε} {o : Options} {limit : Option Nat} {comparison : Text}
  {s after final : σ} {calls : List (Call σ)} {rounds : List (List (Call σ))} {fuel : Nat}
  {measure : Text → Nat} {ended : Except (Stop ε) Report}

/-- If the call changed the text, it took the measure down. -/
def Call.Lowers (t : Target σ ε) (measure : Text → Nat) (c : Call σ) : Prop :=
  Text.join (t.lines c.after) ≠ Text.join (t.lines c.before) →
    measure (Text.join (t.lines c.after)) < measure (Text.join (t.lines c.before))

section Rounds

theorem pass_of_recorded {ended : PassEnd ε}
    (h : pass t.recorded o comparison (s, []) = (ended, after, calls)) :
    pass t o comparison s = (ended, after) := by
  rw [← pass_recorded t o comparison s [], h]
  rfl

theorem Round.measure_lt (h : Round t o comparison s calls after)
    (hlow : ∀ c ∈ calls, c.Lowers t measure) :
    measure (Text.join (t.lines after)) < measure (Text.join (t.lines s)) := by
  have hmade := h.made
  unfold pass at hmade
  split at hmade
  · cases hmade
  · obtain ⟨kept, last, rfl, -, hchanged, hbefore, rfl⟩ := formatHunks_changed rfl hmade
    have hlast := hlow last (by simp) hchanged
    rwa [hbefore] at hlast

theorem Rounds.measure_le (h : Rounds t o comparison s rounds final)
    (hlow : ∀ c ∈ rounds.flatten, c.Lowers t measure) :
    rounds.length + measure (Text.join (t.lines final)) ≤ measure (Text.join (t.lines s)) := by
  induction h with
  | done s => simp
  | next hround _ ih =>
    rw [List.flatten_cons, List.forall_mem_append] at hlow
    have hless := hround.measure_lt hlow.1
    have hrest := ih hlow.2
    rw [List.length_cons]
    omega

theorem Rounds.unbroken (h : Rounds t o comparison s rounds final) (hkeep : t.KeepsLines)
    (hs : Text.Unbroken (t.lines s)) : Text.Unbroken (t.lines final) := by
  induction h with
  | done s => exact hs
  | next hround _ ih =>
    apply ih
    have hafter := hkeep.pass_unbroken hs o comparison
    rwa [pass_of_recorded hround.made] at hafter

end Rounds

section Runs

/-- A run makes no more rounds than the measure of its first text. -/
theorem run_measured (hlow : ∀ c ∈ runCalls t o limit comparison fuel s, c.Lowers t measure)
    (h : run t o limit comparison fuel {} s = (ended, final)) :
    ∃ rounds start last rest, Rounds t o comparison s rounds start ∧
      rounds.length ≤ measure (Text.join (t.lines s)) ∧ fuel = rest + rounds.length ∧
      Ending t o limit comparison rest (Report.afterRounds {} rounds) start ended last final := by
  obtain ⟨log, hlog⟩ := exists_run_recorded h []
  obtain ⟨rounds, start, last, rest, hrounds, hfuel, -, hcalls, hend⟩ := run_rounds hlog
  rw [runCalls, hlog, hcalls, List.nil_append, List.forall_mem_append] at hlow
  have hle := hrounds.measure_le hlow.1
  exact ⟨rounds, start, last, rest, hrounds, by omega, hfuel, hend⟩

theorem run_measured_ne_outOfFuel
    (hlow : ∀ c ∈ runCalls t o limit comparison fuel s, c.Lowers t measure)
    (hfuel : measure (Text.join (t.lines s)) < fuel) :
    (run t o limit comparison fuel {} s).1 ≠ .error .outOfFuel := by
  intro h
  obtain ⟨rounds, start, last, rest, -, hle, hrest, hend⟩ := run_measured hlow (Prod.ext h rfl)
  cases hend with
  | outOfFuel hzero => omega
  | stopped hp => exact (pass_stopped (congrArg Prod.fst hp)).1 rfl

theorem run_measured_ne_unsettled
    (hlow : ∀ c ∈ runCalls t o limit comparison fuel s, c.Lowers t measure)
    (hlimit : ∀ m, limit = some m → measure (Text.join (t.lines s)) < m) (n : Nat) :
    (run t o limit comparison fuel {} s).1 ≠ .error (.unsettled n) := by
  intro h
  obtain ⟨rounds, start, last, rest, -, hle, -, hend⟩ := run_measured hlow (Prod.ext h rfl)
  cases hend with
  | cutOff hcut =>
    cases limit with
    | none => cases hcut
    | some m =>
      have hm := hlimit m rfl
      have hcut : m ≤ rounds.length := by simpa [Report.afterRounds] using hcut
      omega
  | stopped hp => exact (pass_stopped (congrArg Prod.fst hp)).2 n rfl

/-- Where no call fails, a pass stops only over an alignment that goes too deep, or over lines that
are not those of their text. -/
theorem pass_stopped_cases {why : Stop ε} (hok : ∀ range s, (t.format range s).1 = .ok ())
    (h : pass t o comparison s = (.stopped why, final)) :
    why = .tooDeep ∧ textHunks o comparison (Text.join (t.lines s)) = none ∨
      why = .lineMissing ∧ ¬Text.Unbroken (t.lines s) := by
  have hthere : Text.Unbroken (t.lines s) → why ≠ .lineMissing := by
    rintro hs rfl
    exact pass_ne_lineMissing hs (congrArg Prod.fst h)
  unfold pass at h
  split at h
  · next hdeep =>
    cases h
    exact .inl ⟨rfl, hdeep⟩
  · rcases formatHunks_stopped (congrArg Prod.fst h) with ⟨rfl, -⟩ | ⟨e, range, s', -, hfail⟩
    · exact .inr ⟨rfl, fun hs => hthere hs rfl⟩
    · rw [hok] at hfail
      cases hfail

end Runs

/-- A formatter that never fails, and whose changes all take a measure of the text down, lets every run
end within one pass more than the measure; no limit above the measure cuts it off. -/
theorem measured_run_ends (t : Target σ ε) (o : Options) (comparison : Text) (s : σ)
    (measure : Text → Nat) (hs : Text.Unbroken (t.lines s))
    (hok : ∀ range s, (t.format range s).1 = .ok ())
    (hlow : ∀ fuel, ∀ c ∈ runCalls t o none comparison fuel s, c.Lowers t measure) :
    let bound := measure (Text.join (t.lines s))
    ((∃ report final, (∀ fuel > bound, run t o none comparison fuel {} s = (.ok report, final)) ∧
        report.passes ≤ bound + 1) ∨
      ∃ rounds start why final, Rounds t o comparison s rounds start ∧ rounds.length ≤ bound ∧
        pass t o comparison start = (.stopped why, final) ∧
        (why = .tooDeep ∧ textHunks o comparison (Text.join (t.lines start)) = none ∨
          why = .lineMissing ∧ ¬t.KeepsLines) ∧
        ∀ fuel > bound, run t o none comparison fuel {} s = (.error why, final)) ∧
    ∀ m > bound, ∀ fuel n,
      (run t o (some m) comparison fuel {} s).1 ≠ .error (.unsettled n) := by
  intro bound
  refine ⟨?_, fun m hm fuel n => ?_⟩
  · cases h : run t o none comparison (bound + 1) {} s with
    | mk ended final =>
      have hfuel := run_measured_ne_outOfFuel (hlow _) (Nat.lt_succ_self bound)
      have hsame : ∀ fuel > bound, run t o none comparison fuel {} s = (ended, final) := by
        intro fuel hmore
        rw [← h]
        refine run_extend hmore (allows_refl none) hfuel fun n hn => ?_
        exact absurd hn (run_measured_ne_unsettled (hlow _) nofun n)
      obtain ⟨rounds, start, last, rest, hrounds, hle, -, hend⟩ := run_measured (hlow _) h
      cases hend with
      | outOfFuel => exact absurd (congrArg Prod.fst h) hfuel
      | cutOff hcut => cases hcut
      | settled hp =>
        refine .inl ⟨_, final, hsame, ?_⟩
        simpa [Report.afterRounds] using hle
      | stopped hp =>
        have hstopped := pass_of_recorded hp
        refine .inr ⟨rounds, start, _, final, hrounds, hle, hstopped, ?_, hsame⟩
        exact (pass_stopped_cases hok hstopped).imp_right
          (And.imp_right fun hbroken hkeep => hbroken (hrounds.unbroken hkeep hs))
  · refine run_measured_ne_unsettled (fun c hc => hlow fuel c ?_) ?_ n
    · have hprefix : runCalls t o (some m) comparison fuel s <+:
          runCalls t o none comparison fuel s := run_prefix le_rfl (allows_none _)
      exact hprefix.subset hc
    · intro m' hm'
      cases hm'
      exact hm

/-- It is enough that no call at all changes the text without taking the measure down. -/
theorem lowers_of_format
    (h : ∀ range s, Text.join (t.lines (t.format range s).2) ≠ Text.join (t.lines s) →
      measure (Text.join (t.lines (t.format range s).2)) < measure (Text.join (t.lines s))) :
    ∀ c ∈ runCalls t o limit comparison fuel s, c.Lowers t measure := by
  have hkept : t.recorded.Keeps o comparison fun s => ∀ c ∈ s.2, c.Lowers t measure := by
    rintro - ⟨s, log⟩ - hlog - - - - - - range -
    rw [Target.recorded_format]
    exact List.forall_mem_append.mpr ⟨hlog, List.forall_mem_singleton.mpr (h range s)⟩
  exact run_invariant (s := (s, [])) hkept (List.forall_mem_nil _)

def shorten : List Text → List Text
  | [l] => [if 2 ≤ l.length then l.dropLast else l]
  | ls => ls

def Target.shortening : Target (List Text) Empty where
  lines := id
  format _ ls := (.ok (), shorten ls)

theorem length_join_shorten_lt {ls : List Text} (h : Text.join (shorten ls) ≠ Text.join ls) :
    (Text.join (shorten ls)).length < (Text.join ls).length := by
  unfold shorten at h ⊢
  split at h
  · next l =>
    by_cases hl : 2 ≤ l.length
    · have hshorter : l.dropLast.length < l.length := by
        rw [Text.length, Text.dropLast, List.length_dropLast]
        exact Nat.sub_lt (Nat.lt_of_lt_of_le Nat.two_pos hl) Nat.one_pos
      simpa [Text.join, Text.intercalate, hl] using hshorter
    · rw [if_neg hl] at h
      exact absurd rfl h
  · exact absurd rfl h

/-- Two rounds take the marks away, and the third pass settles; the text had three letters. -/
theorem measured_run_ends_shortening :
    let t := Target.shortening
    (∀ fuel > 3, run t {} none "a" fuel {} ["b!!"] = (.ok ⟨3, 3, 2⟩, (["b"] : List Text))) ∧
      ∀ m > 3, ∀ fuel n, (run t {} (some m) "a" fuel {} ["b!!"]).1 ≠ .error (.unsettled n) := by
  intro t
  have hfour : run t {} none "a" 4 {} ["b!!"] = (.ok ⟨3, 3, 2⟩, (["b"] : List Text)) := rfl
  have hunbroken : Text.Unbroken (["b!!"] : List Text) := by decide
  obtain ⟨hends, hlimits⟩ := measured_run_ends t {} "a" ["b!!"] Text.length hunbroken
    (fun _ _ => rfl) fun _ => lowers_of_format fun _ _ => length_join_shorten_lt
  refine ⟨?_, hlimits⟩
  rcases hends with ⟨report, final, hrun, -⟩ | ⟨-, -, why, final, -, -, -, -, hrun⟩
  · have hsame := (hrun 4 (Nat.lt_succ_self 3)).symm.trans hfour
    rwa [hsame] at hrun
  · cases (hrun 4 (Nat.lt_succ_self 3)).symm.trans hfour

end Hunkwise.Converge
