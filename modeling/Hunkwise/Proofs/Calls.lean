import Hunkwise.Converge
import Hunkwise.Proofs.HunkCover
import Hunkwise.Proofs.LineText

/-! The calls of a convergence run. A run makes a call only while the buffer has the text that its
hunks were taken from, so every call covers the whole lines of a hunk between the comparison text
and the buffer as it is at that moment. -/

namespace Hunkwise.Converge

open Diff

variable {σ ε : Type} {t : Target σ ε} {o : Options} {limit : Option Nat} {comparison : Text}
  {before : List Text} {hs : List Hunk} {h : Hunk} {range : LineRange} {s : σ}

structure Call (σ : Type) where
  range : LineRange
  before : σ
  after : σ

def Target.recorded (t : Target σ ε) : Target (σ × List (Call σ)) ε where
  lines s := t.lines s.1
  format range s :=
    let (r, after) := t.format range s.1
    (r, after, s.2 ++ [⟨range, s.1, after⟩])

def runCalls (t : Target σ ε) (o : Options) (limit : Option Nat) (comparison : Text) (fuel : Nat)
    (s : σ) : List (Call σ) :=
  (run t.recorded o limit comparison fuel {} (s, [])).2.2

@[simp] theorem Target.recorded_lines (t : Target σ ε) (s : σ × List (Call σ)) :
    t.recorded.lines s = t.lines s.1 := rfl

theorem Target.recorded_format (t : Target σ ε) (range : LineRange) (s : σ) (log : List (Call σ)) :
    t.recorded.format range (s, log) =
      ((t.format range s).1, (t.format range s).2, log ++ [⟨range, s, (t.format range s).2⟩]) := rfl

section Steps

theorem formatHunks_deletion (hd : h.isDeletion = true) (calls : Nat) (s : σ) :
    formatHunks t before (h :: hs) calls s = formatHunks t before hs calls s := by
  rw [formatHunks, if_pos hd]

/-- What comes of a call: it fails, it changes the buffer, or the next hunk is at hand. -/
theorem formatHunks_call (hd : h.isDeletion = false) (hr : hunkRange before h = some range)
    (calls : Nat) (s : σ) :
    formatHunks t before (h :: hs) calls s =
      match (t.format range s).1 with
      | .error e => (.stopped (.failed e), (t.format range s).2)
      | .ok _ =>
        if Text.join (t.lines (t.format range s).2) = Text.join before then
          formatHunks t before hs (calls + 1) (t.format range s).2
        else (.changed (calls + 1), (t.format range s).2) := by
  rw [formatHunks, if_neg (by rw [hd]; exact Bool.false_ne_true), hr]
  dsimp only
  cases ht : t.format range s with
  | mk r after => cases r <;> rfl

theorem formatHunks_missing (hd : h.isDeletion = false) (hr : hunkRange before h = none)
    (calls : Nat) (s : σ) :
    formatHunks t before (h :: hs) calls s = (.stopped .lineMissing, s) := by
  rw [formatHunks, if_neg (by rw [hd]; exact Bool.false_ne_true), hr]

theorem formatHunks_recorded_call (hd : h.isDeletion = false)
    (hr : hunkRange before h = some range) (calls : Nat) (s : σ) (log : List (Call σ)) :
    formatHunks t.recorded before (h :: hs) calls (s, log) =
      let after := (t.format range s).2
      let log := log ++ [⟨range, s, after⟩]
      match (t.format range s).1 with
      | .error e => (.stopped (.failed e), after, log)
      | .ok _ =>
        if Text.join (t.lines after) = Text.join before then
          formatHunks t.recorded before hs (calls + 1) (after, log)
        else (.changed (calls + 1), after, log) :=
  formatHunks_call hd hr calls (s, log)

end Steps

section Simulation

variable {σ' : Type}

/-- Two targets in step: states that `R` joins have the same lines, and a call has the same result
from both and leaves states that are joined again. -/
structure Target.Simulates (t : Target σ ε) (t' : Target σ' ε) (R : σ → σ' → Prop) : Prop where
  lines : ∀ s s', R s s' → t.lines s = t'.lines s'
  result : ∀ range s s', R s s' → (t.format range s).1 = (t'.format range s').1
  after : ∀ range s s', R s s' → R (t.format range s).2 (t'.format range s').2

variable {t' : Target σ' ε} {R : σ → σ' → Prop} {s' : σ'}

def Alike (R : σ → σ' → Prop) {α : Type} (r : α × σ) (r' : α × σ') : Prop :=
  r.1 = r'.1 ∧ R r.2 r'.2

theorem formatHunks_simulates (h : t.Simulates t' R) (hs : R s s') (before : List Text)
    (hunks : List Hunk) (calls : Nat) :
    Alike R (formatHunks t before hunks calls s) (formatHunks t' before hunks calls s') := by
  induction hunks generalizing calls s s' with
  | nil => exact ⟨rfl, hs⟩
  | cons g hunks ih =>
    cases hd : g.isDeletion with
    | true =>
      rw [formatHunks_deletion hd, formatHunks_deletion hd]
      exact ih hs calls
    | false =>
      cases hr : hunkRange before g with
      | none =>
        rw [formatHunks_missing hd hr, formatHunks_missing hd hr]
        exact ⟨rfl, hs⟩
      | some range =>
        have hafter := h.after range s s' hs
        rw [formatHunks_call hd hr, formatHunks_call hd hr, h.result range s s' hs,
          h.lines _ _ hafter]
        cases (t'.format range s').1 with
        | error e => exact ⟨rfl, hafter⟩
        | ok _ =>
          dsimp only
          split
          · exact ih hafter (calls + 1)
          · exact ⟨rfl, hafter⟩

theorem pass_simulates (h : t.Simulates t' R) (hs : R s s') (o : Options) (comparison : Text) :
    Alike R (pass t o comparison s) (pass t' o comparison s') := by
  unfold pass
  rw [h.lines s s' hs]
  split
  · exact ⟨rfl, hs⟩
  · exact formatHunks_simulates h hs _ _ 0

theorem run_simulates (h : t.Simulates t' R) (hs : R s s') (o : Options) (limit : Option Nat)
    (comparison : Text) (fuel : Nat) (report : Report) :
    Alike R (run t o limit comparison fuel report s) (run t' o limit comparison fuel report s') := by
  induction fuel generalizing report s s' with
  | zero => exact ⟨rfl, hs⟩
  | succ fuel ih =>
    unfold run
    split
    · exact ⟨rfl, hs⟩
    · obtain ⟨hend, hafter⟩ := pass_simulates h hs o comparison
      cases hp : pass t o comparison s with
      | mk ended after =>
        cases hp' : pass t' o comparison s' with
        | mk ended' after' =>
          rw [hp, hp'] at hend hafter
          dsimp only at hend
          subst hend
          cases ended with
          | settled calls => exact ⟨rfl, hafter⟩
          | changed calls => exact ih hafter _
          | stopped why => exact ⟨rfl, hafter⟩

end Simulation

theorem recorded_simulates (t : Target σ ε) : t.recorded.Simulates t fun s s' => s.1 = s' where
  lines := by rintro s _ rfl; rfl
  result := by rintro range s _ rfl; rfl
  after := by rintro range s _ rfl; rfl

/-- Recording changes neither how a pass ends nor the state it leaves. -/
theorem pass_recorded (t : Target σ ε) (o : Options) (comparison : Text) (s : σ)
    (log : List (Call σ)) :
    Prod.map id Prod.fst (pass t.recorded o comparison (s, log)) = pass t o comparison s := by
  obtain ⟨hend, hafter⟩ := pass_simulates (s := (s, log)) (recorded_simulates t) rfl o comparison
  exact Prod.ext hend hafter

theorem run_recorded (t : Target σ ε) (o : Options) (limit : Option Nat) (comparison : Text)
    (fuel : Nat) (report : Report) (s : σ) (log : List (Call σ)) :
    Prod.map id Prod.fst (run t.recorded o limit comparison fuel report (s, log)) =
      run t o limit comparison fuel report s := by
  obtain ⟨hend, hafter⟩ :=
    run_simulates (s := (s, log)) (recorded_simulates t) rfl o limit comparison fuel report
  exact Prod.ext hend hafter

theorem exists_run_recorded {fuel : Nat} {report : Report} {ended : Except (Stop ε) Report}
    {final : σ} (h : run t o limit comparison fuel report s = (ended, final))
    (log : List (Call σ)) :
    ∃ log', run t.recorded o limit comparison fuel report (s, log) = (ended, final, log') := by
  have hrec := run_recorded t o limit comparison fuel report s log
  rw [h] at hrec
  generalize run t.recorded o limit comparison fuel report (s, log) = result at hrec ⊢
  obtain ⟨ended', final', log'⟩ := result
  obtain ⟨rfl, rfl⟩ := Prod.mk.inj hrec
  exact ⟨log', rfl⟩

section Invariants

/-- What every call that a run may make keeps: the buffer still has the text it had at the start of
the pass, and the range is that of a hunk of that text. -/
def Target.Keeps (t : Target σ ε) (o : Options) (comparison : Text) (I : σ → Prop) : Prop :=
  ∀ start s, I start → I s → Text.join (t.lines s) = Text.join (t.lines start) →
    ∀ hs, textHunks o comparison (Text.join (t.lines start)) = some hs →
    ∀ h ∈ hs, h.isDeletion = false → ∀ range, hunkRange (t.lines start) h = some range →
      I (t.format range s).2

variable {I : σ → Prop}

theorem formatHunks_invariant {calls : Nat}
    (hstep : ∀ s, I s → Text.join (t.lines s) = Text.join before → ∀ h ∈ hs, h.isDeletion = false →
      ∀ range, hunkRange before h = some range → I (t.format range s).2)
    (hI : I s) (hj : Text.join (t.lines s) = Text.join before) :
    I (formatHunks t before hs calls s).2 := by
  induction hs generalizing calls s with
  | nil => exact hI
  | cons h hs ih =>
    have hlater := fun s hI hj g hg => hstep s hI hj g (List.mem_cons_of_mem _ hg)
    cases hd : h.isDeletion with
    | true => rw [formatHunks_deletion hd]; exact ih hlater hI hj
    | false =>
      cases hr : hunkRange before h with
      | none => rw [formatHunks_missing hd hr]; exact hI
      | some range =>
        have hnext := hstep s hI hj h List.mem_cons_self hd range hr
        rw [formatHunks_call hd hr]
        split
        · exact hnext
        · split
          · next hj' => exact ih hlater hnext hj'
          · exact hnext

theorem pass_invariant (hkeep : t.Keeps o comparison I) (hI : I s) :
    I (pass t o comparison s).2 := by
  unfold pass
  split
  · exact hI
  · next hs hhs =>
    exact formatHunks_invariant
      (fun s' hI' hj h hh hd range hr => hkeep s s' hI hI' hj hs hhs h hh hd range hr) hI rfl

/-- What every call keeps holds after a run, however it ends. -/
theorem run_invariant {fuel : Nat} {report : Report} (hkeep : t.Keeps o comparison I) (hI : I s) :
    I (run t o limit comparison fuel report s).2 := by
  induction fuel generalizing report s with
  | zero => exact hI
  | succ fuel ih =>
    have hpass := pass_invariant hkeep hI
    unfold run
    split
    · exact hI
    · cases hp : pass t o comparison s with
      | mk ended after =>
        rw [hp] at hpass
        cases ended with
        | settled calls => exact hpass
        | changed calls => exact ih hpass
        | stopped why => exact hpass

end Invariants

/-- A range covers the new lines of a hunk in full, and they are all there. -/
structure Spans (lines : List Text) (h : Hunk) (range : LineRange) : Prop where
  first : 1 ≤ h.newStart
  ordered : h.newStart ≤ h.lastLine
  last : h.lastLine ≤ lines.length
  whole : ∃ line, lines[(h.lastLine - 1).toNat]? = some line ∧
    range = { start := (h.newStart, 0), stop := (h.lastLine, (line.length : Int) - 1) }

/-- The range of a hunk of the buffer's text can be taken, because the text has just the buffer's
lines unless it is empty, and the empty text has no hunk to format. -/
theorem hunkRange_spans (hu : Text.Unbroken before)
    (hhs : textHunks o comparison (Text.join before) = some hs) (hh : h ∈ hs)
    (hd : h.isDeletion = false) :
    0 < h.newCount ∧ Text.lines (Text.join before) = before ∧
      ∃ range, hunkRange before h = some range ∧ Spans before h range := by
  obtain ⟨-, -, -, hstart, hcount, hstop⟩ := hunks_within hhs h hh
  have hpos : h.newCount ≠ 0 := by simpa [Hunk.isDeletion] using hd
  have hlines : Text.lines (Text.join before) = before := by
    apply hu.lines_join_of_ne_empty
    intro he
    rw [he, List.length_nil] at hstop
    omega
  rw [hlines] at hstop
  have hlast : h.lastLine = h.newStart + h.newCount - 1 := rfl
  obtain ⟨k, hk⟩ : ∃ k : Nat, h.lastLine - 1 = k := ⟨(h.lastLine - 1).toNat, by omega⟩
  have hlt : k < before.length := by omega
  refine ⟨by omega, hlines, _, ?_, by omega, by omega, by omega, before[k], ?_, rfl⟩
  · rw [hunkRange, elementAt?, if_neg (by omega), hk, Int.toNat_natCast,
      List.getElem?_eq_getElem hlt]
    rfl
  · rw [hk, Int.toNat_natCast, List.getElem?_eq_getElem hlt]

def Target.KeepsLines (t : Target σ ε) : Prop :=
  ∀ range s, Text.Unbroken (t.lines s) → Text.Unbroken (t.lines (t.format range s).2)

/-- A call that formats a hunk of the buffer as it is at that moment. -/
def Fresh (t : Target σ ε) (o : Options) (comparison : Text) (c : Call σ) : Prop :=
  ∃ hs, textHunks o comparison (Text.join (t.lines c.before)) = some hs ∧
    ∃ h ∈ hs, 0 < h.newCount ∧ Spans (t.lines c.before) h c.range

/-- Two lists of lines with the same text are the same if a hunk of that text is to be formatted. -/
theorem lines_eq_of_join_eq {now : List Text} (hb : Text.Unbroken before) (hn : Text.Unbroken now)
    (hj : Text.join now = Text.join before)
    (hhs : textHunks o comparison (Text.join before) = some hs) (hh : h ∈ hs)
    (hd : h.isDeletion = false) : now = before := by
  obtain ⟨-, hlines, _, -, hfirst, hordered, hlast, -⟩ := hunkRange_spans hb hhs hh hd
  rw [← hlines, ← hj]
  refine (hn.lines_join_of_ne_empty ?_).symm
  intro he
  rw [hj, hlines] at he
  rw [he, List.length_nil] at hlast
  omega

theorem fresh_kept (hkeep : t.KeepsLines) :
    t.recorded.Keeps o comparison fun s =>
      Text.Unbroken (t.lines s.1) ∧ ∀ c ∈ s.2, Fresh t o comparison c := by
  rintro start ⟨s, log⟩ ⟨hstart, -⟩ ⟨hs, hlog⟩ hj hunks hhunks h hh hd range hr
  rw [Target.recorded_format]
  refine ⟨hkeep range s hs, ?_⟩
  intro c hc
  rcases List.mem_append.mp hc with hc | hc
  · exact hlog c hc
  · rw [List.mem_singleton.mp hc]
    obtain ⟨hpos, -, range', hr', hspans⟩ := hunkRange_spans hstart hhunks hh hd
    obtain rfl : range' = range := Option.some.inj (hr'.symm.trans hr)
    -- the hunk was taken from the lines at the start of the pass, and they are still the same
    have hnow : t.lines s = t.lines start.1 := lines_eq_of_join_eq hstart hs hj hhunks hh hd
    exact ⟨hunks, by dsimp only; rw [hnow]; exact hhunks, h, hh, hpos, by dsimp only; rwa [hnow]⟩

/-- How a pass over some hunks stops: a line is missing, or a call fails. -/
theorem formatHunks_stopped {why : Stop ε} {calls : Nat}
    (hstop : (formatHunks t before hs calls s).1 = .stopped why) :
    (why = .lineMissing ∧ ∃ h ∈ hs, h.isDeletion = false ∧ hunkRange before h = none) ∨
      ∃ e range s', why = .failed e ∧ (t.format range s').1 = .error e := by
  induction hs generalizing calls s with
  | nil => cases hstop
  | cons h hs ih =>
    have hlater : (∃ g ∈ hs, g.isDeletion = false ∧ hunkRange before g = none) →
        ∃ g ∈ h :: hs, g.isDeletion = false ∧ hunkRange before g = none :=
      fun ⟨g, hg, hmissing⟩ => ⟨g, List.mem_cons_of_mem h hg, hmissing⟩
    cases hd : h.isDeletion with
    | true =>
      rw [formatHunks_deletion hd] at hstop
      exact (ih hstop).imp_left (And.imp_right hlater)
    | false =>
      cases hr : hunkRange before h with
      | none =>
        rw [formatHunks_missing hd hr] at hstop
        cases hstop
        exact .inl ⟨rfl, h, List.mem_cons_self, hd, hr⟩
      | some range =>
        rw [formatHunks_call hd hr] at hstop
        split at hstop
        · next e he =>
          cases hstop
          exact .inr ⟨e, range, s, rfl, he⟩
        · split at hstop
          · exact (ih hstop).imp_left (And.imp_right hlater)
          · cases hstop

theorem pass_ne_lineMissing (hu : Text.Unbroken (t.lines s)) :
    (pass t o comparison s).1 ≠ .stopped .lineMissing := by
  unfold pass
  split
  · intro he; cases he
  · next hs hhs =>
    intro hstop
    rcases formatHunks_stopped hstop with ⟨-, h, hh, hd, hmissing⟩ | ⟨e, -, -, he, -⟩
    · obtain ⟨-, -, range, hr, -⟩ := hunkRange_spans hu hhs hh hd
      rw [hmissing] at hr
      cases hr
    · cases he

theorem unbroken_kept (hkeep : t.KeepsLines) :
    t.Keeps o comparison fun s => Text.Unbroken (t.lines s) :=
  fun _ s _ hs _ _ _ _ _ _ range _ => hkeep range s hs

theorem Target.KeepsLines.pass_unbroken (hkeep : t.KeepsLines) (hu : Text.Unbroken (t.lines s))
    (o : Options) (comparison : Text) : Text.Unbroken (t.lines (pass t o comparison s).2) :=
  pass_invariant (unbroken_kept hkeep) hu

/-- A run that stops stops in one of its passes, or may not make another. -/
theorem run_stopped {I : σ → Prop} {fuel : Nat} {report : Report} {why : Stop ε}
    (hkeep : t.Keeps o comparison I) (hI : I s)
    (hstop : (run t o limit comparison fuel report s).1 = .error why) :
    why = .outOfFuel ∨ (∃ passes, why = .unsettled passes) ∨
      ∃ s', I s' ∧ (pass t o comparison s').1 = .stopped why := by
  induction fuel generalizing report s with
  | zero =>
    cases hstop
    exact .inl rfl
  | succ fuel ih =>
    unfold run at hstop
    split at hstop
    · cases hstop
      exact .inr (.inl ⟨_, rfl⟩)
    · have hafter := pass_invariant hkeep hI
      cases hp : pass t o comparison s with
      | mk ended after =>
        rw [hp] at hstop hafter
        cases ended with
        | settled calls => cases hstop
        | changed calls => exact ih hafter hstop
        | stopped why' =>
          cases hstop
          exact .inr (.inr ⟨s, hI, by rw [hp]⟩)

theorem run_ne_lineMissing (hkeep : t.KeepsLines) (hu : Text.Unbroken (t.lines s)) (fuel : Nat)
    (report : Report) : (run t o limit comparison fuel report s).1 ≠ .error .lineMissing := by
  intro hstop
  rcases run_stopped (unbroken_kept hkeep) hu hstop with h | ⟨_, h⟩ | ⟨s', hs', hp⟩
  · cases h
  · cases h
  · exact pass_ne_lineMissing hs' hp

theorem run_failed {fuel : Nat} {report : Report} {e : ε}
    (hstop : (run t o limit comparison fuel report s).1 = .error (.failed e)) :
    ∃ range s', (t.format range s').1 = .error e := by
  rcases run_stopped (I := fun _ => True) (fun _ _ _ _ _ _ _ _ _ _ _ _ => trivial) trivial hstop
    with h | ⟨_, h⟩ | ⟨s', -, hp⟩
  · cases h
  · cases h
  · unfold pass at hp
    split at hp
    · cases hp
    · rcases formatHunks_stopped hp with ⟨h, -⟩ | ⟨e', range, s'', he, hfail⟩
      · cases h
      · cases he
        exact ⟨range, s'', hfail⟩

/-- No call of a run is stale: at the moment it is made it covers the whole lines of a hunk between
the comparison text and the buffer. So the last line of a hunk is always there. -/
theorem run_calls_fresh (t : Target σ ε) (o : Options) (limit : Option Nat) (comparison : Text)
    (fuel : Nat) (s : σ) (hkeep : t.KeepsLines) (hs : Text.Unbroken (t.lines s)) :
    (∀ c ∈ runCalls t o limit comparison fuel s, Fresh t o comparison c) ∧
      (run t o limit comparison fuel {} s).1 ≠ .error .lineMissing := by
  refine ⟨?_, run_ne_lineMissing hkeep hs fuel {}⟩
  have hfresh : Text.Unbroken (t.lines s) ∧ ∀ c ∈ ([] : List (Call σ)), Fresh t o comparison c :=
    ⟨hs, fun c hc => absurd hc List.not_mem_nil⟩
  exact (run_invariant (s := (s, [])) (fresh_kept hkeep) hfresh).2

def Target.writing (ls : List Text) : Target (List Text) Empty where
  lines := id
  format _ _ := (.ok (), ls)

theorem keepsLines_writing {ls : List Text} (h : Text.Unbroken ls) :
    (Target.writing ls).KeepsLines := fun _ _ _ => h

/-- A line is split by the first call, and the second one covers both of its parts. -/
theorem run_calls_fresh_split_line :
    let t := Target.writing ["a", "x", "y", "c"]
    let calls := runCalls t {} none "a\nb\nc" 3 ["a", "x;y", "c"]
    calls.map Call.range = [⟨(2, 0), (2, 2)⟩, ⟨(2, 0), (3, 0)⟩] ∧
      (∀ c ∈ calls, Fresh t {} "a\nb\nc" c) ∧
      (run t {} none "a\nb\nc" 3 {} ["a", "x;y", "c"]).1 ≠ .error .lineMissing := by
  intro t calls
  have hkeep : t.KeepsLines := keepsLines_writing (by decide)
  have hs : Text.Unbroken (["a", "x;y", "c"] : List Text) := by decide
  exact ⟨by decide +kernel, run_calls_fresh t {} none "a\nb\nc" 3 ["a", "x;y", "c"] hkeep hs⟩

end Hunkwise.Converge
