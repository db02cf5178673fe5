import Hunkwise.Diff.Alignment

/-! Sound alignments. An alignment is sound when its pairs grow on both sides and the lists hold the
same element at each pair. The gaps of a sound alignment cover everything in which the lists differ:
what lies before, between and after the blocks is the same on both sides. -/

namespace Hunkwise.Diff

variable {α : Type} {xs ys : List α} {i j m n : Nat} {ps qs : Pairs} {bs : List Block}

/-- The lists hold the same `n` elements from the places `i` and `j` on. -/
def Agree (xs ys : List α) (i j n : Nat) : Prop :=
  ∀ k < n, ∃ x, xs[i + k]? = some x ∧ ys[j + k]? = some x

theorem agree_zero : Agree xs ys i j 0 := fun k hk => absurd hk (Nat.not_lt_zero k)

theorem Agree.symm (h : Agree xs ys i j n) : Agree ys xs j i n := by
  intro k hk
  obtain ⟨x, hx, hy⟩ := h k hk
  exact ⟨x, hy, hx⟩

theorem Agree.mono (h : Agree xs ys i j n) (hm : m ≤ n) : Agree xs ys i j m :=
  fun k hk => h k (by omega)

theorem Agree.skip (h : Agree xs ys i j (m + n)) : Agree xs ys (i + m) (j + m) n := by
  intro k hk
  rw [Nat.add_assoc, Nat.add_assoc]
  exact h (m + k) (by omega)

theorem Agree.sub {a : Nat} (h : Agree xs ys i j n) (hn : a + m ≤ n) :
    Agree xs ys (i + a) (j + a) m := (h.mono hn).skip

theorem Agree.append (h₁ : Agree xs ys i j m) (h₂ : Agree xs ys (i + m) (j + m) n) :
    Agree xs ys i j (m + n) := by
  intro k hk
  by_cases hm : k < m
  · exact h₁ k hm
  · have := h₂ (k - m) (by omega)
    rwa [show i + m + (k - m) = i + k by omega, show j + m + (k - m) = j + k by omega] at this

theorem Agree.le_of_pos (h : Agree xs ys i j n) (hn : 0 < n) :
    i + n ≤ xs.length ∧ j + n ≤ ys.length := by
  obtain ⟨x, hx, hy⟩ := h (n - 1) (by omega)
  have hx := (List.getElem?_eq_some_iff.mp hx).1
  have hy := (List.getElem?_eq_some_iff.mp hy).1
  omega

theorem Agree.le_length (h : Agree xs ys i j n) (hi : i ≤ xs.length) (hj : j ≤ ys.length) :
    i + n ≤ xs.length ∧ j + n ≤ ys.length := by
  rcases Nat.eq_zero_or_pos n with rfl | hn
  · exact ⟨hi, hj⟩
  · exact h.le_of_pos hn

theorem agree_cons_left {x : α} : Agree (x :: xs) ys (i + 1) j n ↔ Agree xs ys i j n := by
  simp only [Agree, Nat.add_right_comm i 1, List.getElem?_cons_succ]

theorem agree_cons_right {y : α} : Agree xs (y :: ys) i (j + 1) n ↔ Agree xs ys i j n := by
  simp only [Agree, Nat.add_right_comm j 1, List.getElem?_cons_succ]

theorem Agree.of_take {a b : Nat} (h : Agree (xs.take a) (ys.take b) i j n) :
    Agree xs ys i j n := by
  intro k hk
  obtain ⟨x, hx, hy⟩ := h k hk
  rw [List.getElem?_take, Option.ite_none_right_eq_some] at hx hy
  exact ⟨x, hx.2, hy.2⟩

theorem agree_drop {a b : Nat} :
    Agree (xs.drop a) (ys.drop b) i j n ↔ Agree xs ys (a + i) (b + j) n := by
  simp only [Agree, List.getElem?_drop, Nat.add_assoc]

theorem Agree.take_drop_eq (h : Agree xs ys i j n) :
    (xs.drop i).take n = (ys.drop j).take n := by
  apply List.ext_getElem?
  intro k
  by_cases hk : k < n
  · obtain ⟨x, hx, hy⟩ := h k hk
    simp [hk, hx, hy]
  · rw [List.getElem?_take, List.getElem?_take, if_neg hk, if_neg hk]

theorem Agree.drop_eq (h : Agree xs ys i j n) (hx : xs.length = i + n) (hy : ys.length = j + n) :
    xs.drop i = ys.drop j := by
  have := h.take_drop_eq
  rwa [List.take_of_length_le (by rw [List.length_drop]; omega),
    List.take_of_length_le (by rw [List.length_drop]; omega)] at this

section CommonEnds

variable [DecidableEq α]

theorem agree_commonPrefix (xs ys : List α) : Agree xs ys 0 0 (commonPrefix xs ys) := by
  induction xs generalizing ys with
  | nil => exact agree_zero
  | cons x xs ih =>
    cases ys with
    | nil => exact agree_zero
    | cons y ys =>
      unfold commonPrefix
      split
      · next he =>
        rw [Nat.add_comm]
        refine Agree.append (m := 1) ?_ (agree_cons_left.mpr (agree_cons_right.mpr (ih ys)))
        intro k hk
        rw [show k = 0 by omega]
        exact ⟨x, rfl, by rw [he]; rfl⟩
      · exact agree_zero

theorem commonPrefix_le (xs ys : List α) :
    commonPrefix xs ys ≤ xs.length ∧ commonPrefix xs ys ≤ ys.length := by
  simpa using (agree_commonPrefix xs ys).le_length (Nat.zero_le _) (Nat.zero_le _)

theorem commonPrefix_self (xs : List α) : commonPrefix xs xs = xs.length := by
  induction xs with
  | nil => rfl
  | cons x xs ih => simp [commonPrefix, ih]

theorem commonSuffix_le (xs ys : List α) :
    commonSuffix xs ys ≤ xs.length ∧ commonSuffix xs ys ≤ ys.length := by
  simpa [commonSuffix] using commonPrefix_le xs.reverse ys.reverse

theorem agree_commonSuffix (xs ys : List α) :
    Agree xs ys (xs.length - commonSuffix xs ys) (ys.length - commonSuffix xs ys)
      (commonSuffix xs ys) := by
  have hle := commonSuffix_le xs ys
  intro k hk
  -- the place `k` of the common ends is the place `c - 1 - k` of the reversed lists
  obtain ⟨x, hx, hy⟩ := agree_commonPrefix xs.reverse ys.reverse
    (commonSuffix xs ys - 1 - k) (by unfold commonSuffix at hk ⊢; omega)
  rw [Nat.zero_add, List.getElem?_reverse (by omega)] at hx hy
  refine ⟨x, ?_, ?_⟩
  · rw [← hx]; congr 1; omega
  · rw [← hy]; congr 1; omega

end CommonEnds

structure Aligned (xs ys : List α) (ps : Pairs) : Prop where
  grows : ps.Pairwise fun a b => a.1 < b.1 ∧ a.2 < b.2
  agrees : ∀ p ∈ ps, ∃ x, xs[p.1]? = some x ∧ ys[p.2]? = some x

theorem aligned_nil (xs ys : List α) : Aligned xs ys [] := ⟨.nil, by simp⟩

theorem Aligned.lt (h : Aligned xs ys ps) {p : Nat × Nat} (hp : p ∈ ps) :
    p.1 < xs.length ∧ p.2 < ys.length := by
  obtain ⟨x, hx, hy⟩ := h.agrees p hp
  exact ⟨(List.getElem?_eq_some_iff.mp hx).1, (List.getElem?_eq_some_iff.mp hy).1⟩

/-- Alignments of the parts of two lists make one of the lists. -/
theorem Aligned.append {xs' ys' : List α} (h : Aligned xs ys ps) (h' : Aligned xs' ys' qs) :
    Aligned (xs ++ xs') (ys ++ ys') (ps ++ shift xs.length ys.length qs) := by
  constructor
  · rw [List.pairwise_append]
    refine ⟨h.grows, ?_, ?_⟩
    · refine List.pairwise_map.mpr (h'.grows.imp ?_)
      intro a b hab
      exact ⟨Nat.add_lt_add_right hab.1 _, Nat.add_lt_add_right hab.2 _⟩
    · intro a ha b hb
      obtain ⟨q, -, rfl⟩ := List.mem_map.mp hb
      have := h.lt ha
      exact ⟨by dsimp only; omega, by dsimp only; omega⟩
  · intro p hp
    rcases List.mem_append.mp hp with hp | hp
    · obtain ⟨x, hx, hy⟩ := h.agrees p hp
      have := h.lt hp
      exact ⟨x, by rw [List.getElem?_append_left this.1, hx],
        by rw [List.getElem?_append_left this.2, hy]⟩
    · obtain ⟨q, hq, rfl⟩ := List.mem_map.mp hp
      obtain ⟨x, hx, hy⟩ := h'.agrees q hq
      exact ⟨x, by simpa [List.getElem?_append_right] using hx,
        by simpa [List.getElem?_append_right] using hy⟩

theorem Aligned.append_at (h : Aligned (xs.take i) (ys.take j) ps)
    (h' : Aligned (xs.drop i) (ys.drop j) qs) (hi : i ≤ xs.length) (hj : j ≤ ys.length) :
    Aligned xs ys (ps ++ shift i j qs) := by
  have := h.append h'
  rwa [List.take_append_drop, List.take_append_drop, List.length_take_of_le hi,
    List.length_take_of_le hj] at this

theorem aligned_diagonal (xs : List α) : Aligned xs xs (diagonal xs.length) := by
  constructor
  · refine List.pairwise_map.mpr (List.pairwise_lt_range.imp ?_)
    intro a b hab
    exact ⟨hab, hab⟩
  · intro p hp
    obtain ⟨k, hk, rfl⟩ := List.mem_map.mp hp
    rw [List.mem_range] at hk
    exact ⟨xs[k], List.getElem?_eq_getElem _, List.getElem?_eq_getElem _⟩

theorem Agree.aligned (h : Agree xs ys i j n) (hn : i + n ≤ xs.length) :
    Aligned ((xs.drop i).take n) ((ys.drop j).take n) (diagonal n) := by
  have hd := aligned_diagonal ((xs.drop i).take n)
  rw [List.length_take_of_le (by rw [List.length_drop]; omega)] at hd
  rwa [← h.take_drop_eq]

theorem Agree.aligned_around (h : Agree xs ys i j n) (hi : i + n ≤ xs.length)
    (hj : j + n ≤ ys.length) (hb : Aligned (xs.take i) (ys.take j) ps)
    (ha : Aligned (xs.drop (i + n)) (ys.drop (j + n)) qs) :
    Aligned xs ys (ps ++ shift i j (diagonal n) ++ shift (i + n) (j + n) qs) := by
  refine Aligned.append_at (Aligned.append_at ?_ ?_ ?_ ?_) ha hi hj
  · rwa [List.take_take, List.take_take, Nat.min_eq_left (by omega), Nat.min_eq_left (by omega)]
  · rw [List.drop_take, List.drop_take, Nat.add_sub_cancel_left, Nat.add_sub_cancel_left]
    exact h.aligned hi
  · rw [List.length_take_of_le hi]; omega
  · rw [List.length_take_of_le hj]; omega

/-- Where the first block starts, or where the lists end if there is none. -/
def nextPlace (m n : Nat) : List Block → Nat × Nat
  | [] => (m, n)
  | b :: _ => (b.oldStart, b.newStart)

/-- From the places `i` and `j` on, the lists differ at most in the blocks: each block has as many
lines before it on one side as on the other, and the same ones, and so has the end. -/
def Covers (xs ys : List α) : Nat → Nat → List Block → Prop
  | i, j, [] => ∃ n, (xs.length, ys.length) = (i + n, j + n) ∧ Agree xs ys i j n
  | i, j, b :: bs =>
    (∃ n, (b.oldStart, b.newStart) = (i + n, j + n) ∧ Agree xs ys i j n) ∧
      b.oldStart ≤ b.oldStop ∧ b.newStart ≤ b.newStop ∧ Covers xs ys b.oldStop b.newStop bs

theorem Covers.gap (h : Covers xs ys i j bs) :
    ∃ n, nextPlace xs.length ys.length bs = (i + n, j + n) ∧ Agree xs ys i j n := by
  cases bs with
  | nil => exact h
  | cons b bs => exact h.1

/-- The places that blocks are seen from may be moved through what agrees before the first. -/
theorem Covers.rebase {p q : Nat} (h : Covers xs ys i j bs)
    (hn : nextPlace xs.length ys.length bs = (p + n, q + n)) (ha : Agree xs ys p q n) :
    Covers xs ys p q bs := by
  cases bs with
  | nil => exact ⟨n, hn, ha⟩
  | cons b bs => exact ⟨⟨n, hn, ha⟩, h.2⟩

theorem Covers.extend (h : Covers xs ys (i + m) (j + m) bs) (ha : Agree xs ys i j m) :
    Covers xs ys i j bs := by
  obtain ⟨n, hn, hg⟩ := h.gap
  refine h.rebase ?_ (ha.append hg)
  rw [hn, Nat.add_assoc, Nat.add_assoc]

theorem Covers.le_length (h : Covers xs ys i j bs) : i ≤ xs.length ∧ j ≤ ys.length := by
  induction bs generalizing i j with
  | nil =>
    obtain ⟨n, hn, -⟩ := h
    have := Prod.mk.inj hn
    omega
  | cons b bs ih =>
    obtain ⟨⟨n, hn, -⟩, ho, hw, hr⟩ := h
    have := Prod.mk.inj hn
    have := ih hr
    omega

/-- What lies between the pairs of a sound alignment covers all that differs. -/
theorem covers_gaps (h : Aligned xs ys ps) (hi : i ≤ xs.length) (hj : j ≤ ys.length)
    (hij : ∀ p ∈ ps, i ≤ p.1 ∧ j ≤ p.2) :
    Covers xs ys i j (gaps xs.length ys.length i j ps) := by
  induction ps generalizing i j with
  | nil =>
    unfold gaps
    split
    · next he => exact ⟨0, by rw [he.1, he.2]; rfl, agree_zero⟩
    · exact ⟨⟨0, rfl, agree_zero⟩, hi, hj, 0, rfl, agree_zero⟩
  | cons p ps ih =>
    obtain ⟨hgrow, htail⟩ := List.pairwise_cons.mp h.grows
    have hlt := h.lt (List.mem_cons_self)
    have hrest := ih ⟨htail, fun q hq => h.agrees q (List.mem_cons_of_mem _ hq)⟩
      (i := p.1 + 1) (j := p.2 + 1) hlt.1 hlt.2 hgrow
    -- the pair itself is a stretch of length one on which the lists agree
    have hone : Agree xs ys p.1 p.2 1 := by
      intro k hk
      rw [show k = 0 by omega]
      exact h.agrees p List.mem_cons_self
    have hp := hij p List.mem_cons_self
    have hcover := hrest.extend hone
    simp only [gaps]
    split
    · next he => rw [he.1, he.2]; exact hcover
    · exact ⟨⟨0, rfl, agree_zero⟩, hp.1, hp.2, hcover⟩

end Hunkwise.Diff
