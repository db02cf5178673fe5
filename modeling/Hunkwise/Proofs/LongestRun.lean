import Hunkwise.Diff.Longest
import Hunkwise.Proofs.Alignment
import Mathlib.Data.List.GetD
import Mathlib.Data.List.Induction
import Mathlib.Order.Nat

/-! The longest-run alignment is sound. Every number of a row is the length of a run on which the
lists agree, so the run that is kept is one, and it stays one when it is lengthened at its ends. The
numbers are as large as they can be; so a list agrees with itself in one run, whatever counts. -/

namespace Hunkwise.Diff

variable {α : Type} {xs ys : List α} {r : Run}

structure Run.Sound (xs ys : List α) (r : Run) : Prop where
  old_le : r.old + r.length ≤ xs.length
  new_le : r.new + r.length ≤ ys.length
  agree : Agree xs ys r.old r.new r.length

theorem Run.sound_zero (xs ys : List α) : Run.Sound xs ys ⟨0, 0, 0⟩ :=
  ⟨Nat.zero_le _, Nat.zero_le _, agree_zero⟩

theorem Run.Sound.cons (h : r.Sound xs ys) (x : α) :
    Run.Sound (x :: xs) ys ⟨r.old + 1, r.new, r.length⟩ where
  old_le := by
    have := h.old_le
    simp only [List.length_cons]
    omega
  new_le := h.new_le
  agree := agree_cons_left.mpr h.agree

/-- Each number of the row tells how long the lists agree from the first old place and the number's
own place on. -/
def RowSound (xs ys : List α) (row : List Nat) : Prop :=
  ∀ j n, row[j]? = some n → Agree xs ys 0 j n

theorem rowBest_mem (row : List Nat) :
    (rowBest row).1 = 0 ∨ row[(rowBest row).2]? = some (rowBest row).1 := by
  unfold rowBest
  refine List.foldlRecOn (motive := fun best : Nat × Nat =>
    best.1 = 0 ∨ row[best.2]? = some best.1) _ _ (.inl rfl) ?_
  rintro best hbest ⟨n, j⟩ he
  dsimp only
  split
  · exact .inr (List.mem_zipIdx_iff_getElem?.mp he)
  · exact hbest

variable [DecidableEq α]

theorem rowSound_runRow (counts : α → Bool) (x : α) {next : List Nat} (h : RowSound xs ys next) :
    RowSound (x :: xs) ys (runRow counts x ys next) := by
  induction ys generalizing next with
  | nil => intro j n hn; simp [runRow] at hn
  | cons y ys ih =>
    have htail : RowSound xs ys (next.drop 1) := by
      intro j n hn
      rw [List.getElem?_drop, Nat.add_comm] at hn
      exact agree_cons_right.mp (h _ _ hn)
    have hhead : Agree xs ys 0 0 ((next.drop 1).headD 0) := by
      cases hd : next.drop 1 with
      | nil => exact agree_zero
      | cons m ms => exact htail 0 m (by rw [hd]; rfl)
    intro j n hn
    cases j with
    | zero =>
      simp only [runRow, List.getElem?_cons_zero, Option.some.injEq] at hn
      subst hn
      split
      · next hxy =>
        rw [Bool.and_eq_true, decide_eq_true_eq] at hxy
        rw [Nat.add_comm]
        refine Agree.append (m := 1) ?_ (agree_cons_left.mpr (agree_cons_right.mpr hhead))
        intro k hk
        rw [show k = 0 by omega]
        exact ⟨x, rfl, by rw [hxy.1]; rfl⟩
      · exact agree_zero
    | succ j =>
      exact agree_cons_right.mpr (ih htail j n (by simpa [runRow] using hn))

theorem sound_scanRuns (counts : α → Bool) (ys xs : List α) :
    (scanRuns counts ys xs).1.Sound xs ys ∧ RowSound xs ys (scanRuns counts ys xs).2 := by
  induction xs with
  | nil =>
    refine ⟨Run.sound_zero .., ?_⟩
    intro j n hn
    simp only [scanRuns, List.getElem?_map, Option.map_eq_some_iff] at hn
    obtain ⟨y, -, rfl⟩ := hn
    exact agree_zero
  | cons x xs ih =>
    obtain ⟨hrun, hnext⟩ := ih
    have hrow := rowSound_runRow counts x hnext
    refine ⟨?_, hrow⟩
    simp only [scanRuns]
    split
    · next hbest =>
      have hmem := (rowBest_mem (runRow counts x ys (scanRuns counts ys xs).2)).resolve_left
        (by omega)
      have hagree := hrow _ _ hmem
      have hle := hagree.le_of_pos hbest.1
      exact ⟨hle.1, hle.2, hagree⟩
    · split
      · exact Run.sound_zero ..
      · exact hrun.cons x

theorem Run.Sound.extend (h : r.Sound xs ys) : (r.extend xs ys).Sound xs ys := by
  obtain ⟨hold, hnew, hagree⟩ := h
  have hback := commonSuffix_le (xs.take r.old) (ys.take r.new)
  have hon := commonPrefix_le (xs.drop (r.old + r.length)) (ys.drop (r.new + r.length))
  have hbefore := (agree_commonSuffix (xs.take r.old) (ys.take r.new)).of_take
  have hafter := agree_drop.mp
    (agree_commonPrefix (xs.drop (r.old + r.length)) (ys.drop (r.new + r.length)))
  rw [List.length_take_of_le (by omega), List.length_take_of_le (by omega)] at hback hbefore
  rw [List.length_drop, List.length_drop] at hon
  simp only [Run.extend]
  generalize commonSuffix (xs.take r.old) (ys.take r.new) = back at hback hbefore ⊢
  generalize commonPrefix (xs.drop (r.old + r.length)) (ys.drop (r.new + r.length)) = on
    at hon hafter ⊢
  have hold' : r.old - back + back = r.old := by omega
  have hnew' : r.new - back + back = r.new := by omega
  refine ⟨by dsimp only; omega, by dsimp only; omega, ?_⟩
  refine (hbefore.append ?_).append ?_
  · rwa [hold', hnew']
  · rwa [← Nat.add_assoc, ← Nat.add_assoc, hold', hnew']

theorem sound_longestRun (counts : α → Bool) (xs ys : List α) :
    (longestRun counts xs ys).Sound xs ys :=
  (sound_scanRuns counts ys xs).1.extend

/-- The longest-run alignment is sound, whichever elements may start a run. -/
theorem aligned_longestRuns (counts : α → Bool) (xs ys : List α) :
    Aligned xs ys (longestRuns counts xs ys) := by
  induction hlen : xs.length using Nat.strongRecOn generalizing xs ys with
  | ind len ih =>
    subst hlen
    have hrun := sound_longestRun counts xs ys
    rw [longestRuns]
    generalize longestRun counts xs ys = r at hrun ⊢
    obtain ⟨i, j, n⟩ := r
    obtain ⟨hi, hj, hagree⟩ := hrun
    dsimp only at hi hj hagree ⊢
    split
    · next hpos =>
      refine hagree.aligned_around hi hj ?_ ?_
      · exact ih _ (by rw [List.length_take]; omega) _ _ rfl
      · exact ih _ (by rw [List.length_drop]; omega) _ _ rfl
    · exact aligned_nil xs ys

section Whole

def runFrom (counts : α → Bool) : List α → List α → Nat
  | x :: xs, y :: ys => if x = y ∧ counts y then runFrom counts xs ys + 1 else 0
  | _, _ => 0

variable {counts : α → Bool} {next row : List Nat}

theorem runFrom_nil (counts : α → Bool) (xs : List α) : runFrom counts xs [] = 0 := by
  cases xs <;> rfl

/-- Every list agrees with itself at least as far as with another. -/
theorem runFrom_le_left (counts : α → Bool) (xs ys : List α) :
    runFrom counts xs ys ≤ runFrom counts xs xs := by
  induction xs generalizing ys with
  | nil => exact Nat.zero_le _
  | cons x xs ih =>
    cases ys with
    | nil => exact Nat.zero_le _
    | cons y ys =>
      unfold runFrom
      split
      · next h =>
        obtain ⟨rfl, hx⟩ := h
        rw [if_pos ⟨rfl, hx⟩]
        exact Nat.succ_le_succ (ih ys)
      · exact Nat.zero_le _

theorem runFrom_le_right (counts : α → Bool) (xs ys : List α) :
    runFrom counts xs ys ≤ runFrom counts ys ys := by
  induction ys generalizing xs with
  | nil => rw [runFrom_nil]; exact Nat.zero_le _
  | cons y ys ih =>
    cases xs with
    | nil => exact Nat.zero_le _
    | cons x xs =>
      unfold runFrom
      split
      · next h =>
        rw [if_pos ⟨rfl, h.2⟩]
        exact Nat.succ_le_succ (ih xs)
      · exact Nat.zero_le _

/-- Each number of the row tells how far the lists agree from the first old place and the number's own
place on. -/
def RowFull (counts : α → Bool) (xs ys : List α) (row : List Nat) : Prop :=
  ∀ j, row.getD j 0 = runFrom counts xs (ys.drop j)

theorem rowFull_runRow (x : α) (h : RowFull counts xs ys next) :
    RowFull counts (x :: xs) ys (runRow counts x ys next) := by
  induction ys generalizing next with
  | nil =>
    intro j
    rw [List.drop_nil, runFrom_nil]
    rfl
  | cons y ys ih =>
    have htail : RowFull counts xs ys (next.drop 1) := by
      intro j
      have := h (j + 1)
      rwa [List.drop_succ_cons, List.getD_eq_getElem?_getD, Nat.add_comm, ← List.getElem?_drop,
        ← List.getD_eq_getElem?_getD] at this
    have hhead : (next.drop 1).headD 0 = runFrom counts xs ys := by
      have := htail 0
      rwa [List.getD_eq_getElem?_getD, ← List.head?_eq_getElem?, ← List.headD_eq_head?_getD] at this
    intro j
    cases j with
    | zero =>
      simp only [runRow, List.getD_cons_zero, Bool.and_eq_true, decide_eq_true_eq, hhead]
      rfl
    | succ j => exact ih htail j

theorem rowFull_scanRuns (counts : α → Bool) (xs ys : List α) :
    RowFull counts xs ys (scanRuns counts ys xs).2 := by
  induction xs with
  | nil =>
    intro j
    simp only [scanRuns, runFrom, List.getD_eq_getElem?_getD, List.getElem?_map]
    cases ys[j]? <;> rfl
  | cons x xs ih => exact rowFull_runRow x ih

theorem rowBest_concat (row : List Nat) (n : Nat) :
    rowBest (row ++ [n]) = if (rowBest row).1 < n then (n, row.length) else rowBest row := by
  unfold rowBest
  rw [List.zipIdx_append, List.foldl_append, Nat.zero_add]
  rfl

/-- The number that is found is in the row, none is larger, and those to the left of it are smaller. -/
theorem rowBest_spec (row : List Nat) :
    row.getD (rowBest row).2 0 = (rowBest row).1 ∧ (∀ j, row.getD j 0 ≤ (rowBest row).1) ∧
      ∀ j < (rowBest row).2, row.getD j 0 < (rowBest row).1 := by
  induction row using List.reverseRecOn with
  | nil => exact ⟨rfl, fun j => Nat.le_refl 0, fun j hj => absurd hj (Nat.not_lt_zero j)⟩
  | append_singleton row n ih =>
    obtain ⟨hmem, hle, hlt⟩ := ih
    have hget (j : Nat) : (row ++ [n]).getD j 0 = if j = row.length then n else row.getD j 0 := by
      rcases Nat.lt_trichotomy j row.length with hj | rfl | hj
      · rw [if_neg hj.ne, List.getD_append _ _ _ _ hj]
      · simp
      · rw [if_neg hj.ne', List.getD_eq_default _ _ (by rw [List.length_append]; exact hj),
          List.getD_eq_default _ _ hj.le]
    rw [rowBest_concat]
    split
    · next hn =>
      refine ⟨by simp, fun j => ?_, fun j hj => ?_⟩
      · rw [hget]
        split
        · exact Nat.le_refl n
        · exact (hle j).trans hn.le
      · rw [hget, if_neg hj.ne]
        exact (hle j).trans_lt hn
    · next hn =>
      refine ⟨?_, fun j => ?_, fun j hj => ?_⟩
      · rw [hget]
        split
        · next hlast =>
          rw [hlast, List.getD_eq_default _ _ (Nat.le_refl _)] at hmem
          omega
        · exact hmem
      · rw [hget]
        split
        · exact Nat.not_lt.mp hn
        · exact hle j
      · rw [hget]
        split
        · next hlast =>
          have := hlt j hj
          rw [hlast] at this hj
          rw [List.getD_eq_default _ _ hj.le] at hmem
          omega
        · exact hlt j hj

/-- A longest run of elements that count, the earliest in the old list and then in the new one. -/
structure Run.Earliest (counts : α → Bool) (xs ys : List α) (r : Run) : Prop where
  length : r.length = runFrom counts (xs.drop r.old) (ys.drop r.new)
  longest : ∀ i j, runFrom counts (xs.drop i) (ys.drop j) ≤ r.length
  old : ∀ i < r.old, ∀ j, runFrom counts (xs.drop i) (ys.drop j) < r.length
  new : ∀ j < r.new, runFrom counts (xs.drop r.old) (ys.drop j) < r.length

theorem earliest_scanRuns (counts : α → Bool) (ys xs : List α) :
    (scanRuns counts ys xs).1.Earliest counts xs ys := by
  induction xs with
  | nil =>
    simp only [scanRuns]
    exact ⟨rfl, fun i j => by rw [List.drop_nil]; exact Nat.zero_le _, fun i hi => absurd hi (Nat.not_lt_zero i),
      fun j hj => absurd hj (Nat.not_lt_zero j)⟩
  | cons x xs ih =>
    have hrow := rowFull_scanRuns counts (x :: xs) ys
    obtain ⟨hmem, hle, hlt⟩ := rowBest_spec (scanRuns counts ys (x :: xs)).2
    simp only [hrow _] at hmem hle hlt
    simp only [scanRuns] at hmem hle hlt ⊢
    generalize rowBest _ = best at hmem hle hlt ⊢
    generalize (scanRuns counts ys xs).1 = later at ih ⊢
    obtain ⟨n, j⟩ := best
    dsimp only at hmem hle hlt ⊢
    split
    · next hbest =>
      refine ⟨hmem.symm, fun i k => ?_, fun i hi => absurd hi (Nat.not_lt_zero i), hlt⟩
      cases i with
      | zero => exact hle k
      | succ i => exact (ih.longest i k).trans hbest.2
    · next hbest =>
      split
      · next hzero =>
        have hnone (i k : Nat) : runFrom counts ((x :: xs).drop i) (ys.drop k) = 0 := by
          cases i with
          | zero => have := hle k; rw [List.drop_zero]; omega
          | succ i => have := ih.longest i k; rw [List.drop_succ_cons]; omega
        exact ⟨(hnone 0 0).symm, fun i k => (hnone i k).le, fun i hi => absurd hi (Nat.not_lt_zero i),
          fun k hk => absurd hk (Nat.not_lt_zero k)⟩
      · next hpos =>
        have hfirst (k : Nat) : runFrom counts (x :: xs) (ys.drop k) < later.length := by
          have := hle k
          omega
        refine ⟨ih.length, fun i k => ?_, fun i hi k => ?_, ih.new⟩
        · cases i with
          | zero => exact (hfirst k).le
          | succ i => exact ih.longest i k
        · cases i with
          | zero => exact hfirst k
          | succ i => exact ih.old i (Nat.lt_of_succ_lt_succ hi) k

/-- A list meets itself earliest on the diagonal. -/
theorem Run.Earliest.diagonal (h : r.Earliest counts xs xs) : r.old = r.new := by
  rcases Nat.lt_trichotomy r.old r.new with hlt | heq | hlt
  · have := h.new r.old hlt
    have := runFrom_le_left counts (xs.drop r.old) (xs.drop r.new)
    have := h.length
    omega
  · exact heq
  · have := h.old r.new hlt r.new
    have := runFrom_le_right counts (xs.drop r.old) (xs.drop r.new)
    have := h.length
    omega

theorem commonSuffix_self (xs : List α) : commonSuffix xs xs = xs.length := by
  rw [commonSuffix, commonPrefix_self, List.length_reverse]

/-- Lengthened at its ends, the run of a list with itself is the whole list. -/
theorem longestRun_self (counts : α → Bool) (xs : List α) :
    longestRun counts xs xs = ⟨0, 0, xs.length⟩ := by
  have hdiagonal := (earliest_scanRuns counts xs xs).diagonal
  have hle := (sound_scanRuns counts xs xs).1.old_le
  unfold longestRun
  generalize (scanRuns counts xs xs).1 = r at hdiagonal hle
  obtain ⟨i, j, n⟩ := r
  dsimp only at hdiagonal hle
  subst hdiagonal
  have hbefore : (xs.take i).length = i := List.length_take_of_le (by omega)
  simp only [Run.extend, commonSuffix_self, commonPrefix_self, hbefore, List.length_drop,
    Run.mk.injEq]
  omega

theorem longestRuns_self (counts : α → Bool) (xs : List α) :
    longestRuns counts xs xs = diagonal xs.length := by
  have hnil : longestRuns counts ([] : List α) [] = [] := by
    rw [longestRuns, longestRun_self]
    rfl
  have hsame (ps : Pairs) : shift 0 0 ps = ps := List.map_id _
  rw [longestRuns, longestRun_self]
  dsimp only
  split
  · rw [Nat.zero_add, List.take_zero, List.drop_length, hnil, hsame]
    exact List.append_nil _
  · next hempty =>
    obtain rfl : xs = [] := List.eq_nil_of_length_eq_zero (by omega)
    rfl

end Whole

end Hunkwise.Diff
