import Hunkwise.Diff.Unified
import Hunkwise.Proofs.BaselineLines

/-! When a diff is empty. An alignment of a list with itself pairs every place with itself: the longest
run is the whole list, the anchors of a patience alignment do so, and what lies between them is aligned
in the same way. So there are no hunks between lines with the same keys, and there are some as soon as
two keys differ. A unified diff looks at the lines themselves and is empty only where they are all the
same. -/

namespace Hunkwise.Diff

variable {α : Type} {xs ys : List α} {i j : Nat} {ps chain below : Pairs} {piles : List Pairs}

theorem shift_diagonal_add (i j m n : Nat) :
    shift i j (diagonal (m + n)) =
      shift i j (diagonal m) ++ shift (i + m) (j + m) (diagonal n) := by
  induction m generalizing i j with
  | zero => simp [diagonal, shift]
  | succ m ih =>
    rw [Nat.add_right_comm m 1 n, shift_diagonal_succ, shift_diagonal_succ, ih, List.cons_append,
      Nat.add_right_comm i 1 m, Nat.add_right_comm j 1 m]
    rfl

theorem gaps_diagonal (i j n : Nat) : gaps (i + n) (j + n) i j (shift i j (diagonal n)) = [] := by
  induction n generalizing i j with
  | zero => simp [gaps, diagonal, shift]
  | succ n ih =>
    have := ih (i + 1) (j + 1)
    rw [Nat.add_right_comm i 1 n, Nat.add_right_comm j 1 n] at this
    rw [shift_diagonal_succ, gaps, if_pos ⟨rfl, rfl⟩]
    exact this

theorem Covers.eq_of_nil (h : Covers xs ys 0 0 []) : xs = ys := by
  obtain ⟨n, hn, hagree⟩ := h
  obtain ⟨hx, hy⟩ := Prod.mk.inj hn
  simpa using hagree.drop_eq hx hy

/-- Only the same lists are aligned without a gap. -/
theorem Aligned.eq_of_gaps (h : Aligned xs ys ps)
    (hgaps : gaps xs.length ys.length 0 0 ps = []) : xs = ys := by
  have hcover := covers_gaps h (Nat.zero_le _) (Nat.zero_le _)
    fun _ _ => ⟨Nat.zero_le _, Nat.zero_le _⟩
  rw [hgaps] at hcover
  exact hcover.eq_of_nil

section Anchors

theorem mem_place {a p : Nat × Nat} (h : ∃ c ∈ place a below piles, p ∈ c) :
    p = a ∨ p ∈ below ∨ ∃ c ∈ piles, p ∈ c := by
  obtain ⟨c, hc, hp⟩ := h
  induction piles generalizing below with
  | nil =>
    rw [place, List.mem_singleton] at hc
    subst hc
    simpa using hp
  | cons chain piles ih =>
    have hput (hc : c ∈ (a :: below) :: piles) :
        p = a ∨ p ∈ below ∨ ∃ c ∈ chain :: piles, p ∈ c := by
      rcases List.mem_cons.mp hc with rfl | hc
      · exact (List.mem_cons.mp hp).imp_right .inl
      · exact .inr (.inr ⟨c, List.mem_cons_of_mem _ hc, hp⟩)
    unfold place at hc
    split at hc
    · next top rest =>
      split at hc
      · rcases List.mem_cons.mp hc with rfl | hc
        · exact .inr (.inr ⟨_, List.mem_cons_self, hp⟩)
        · rcases ih hc with h | h | ⟨c', hc', hp'⟩
          · exact .inl h
          · exact .inr (.inr ⟨_, List.mem_cons_self, h⟩)
          · exact .inr (.inr ⟨c', List.mem_cons_of_mem _ hc', hp'⟩)
      · exact hput hc
    · exact hput hc

theorem mem_foldl_place {as : Pairs} {p : Nat × Nat}
    (h : ∃ c ∈ as.foldl (fun piles a => place a [] piles) piles, p ∈ c) :
    p ∈ as ∨ ∃ c ∈ piles, p ∈ c := by
  induction as generalizing piles with
  | nil => exact .inr h
  | cons a as ih =>
    rcases ih h with hp | hp
    · exact .inl (List.mem_cons_of_mem a hp)
    · rcases mem_place hp with rfl | hp | hp
      · exact .inl List.mem_cons_self
      · exact absurd hp List.not_mem_nil
      · exact .inr hp

variable [DecidableEq α]

theorem mem_anchors_of_mem_uniqueChain {p : Nat × Nat} (h : p ∈ uniqueChain xs ys) :
    p ∈ anchors xs ys := by
  unfold uniqueChain at h
  dsimp only at h
  cases hlast : ((anchors xs ys).foldl (fun piles a => place a [] piles) []).getLast? with
  | none => simp [hlast] at h
  | some chain =>
    rw [hlast, Option.getD_some, List.mem_reverse] at h
    refine (mem_foldl_place ⟨chain, List.mem_of_getLast? hlast, h⟩).resolve_right ?_
    simp

theorem eq_of_count_eq_one {x : α} (h : xs.count x = 1) (hi : xs[i]? = some x)
    (hj : xs[j]? = some x) : i = j := by
  induction xs generalizing i j with
  | nil => simp at hi
  | cons y ys ih =>
    have hrest {k : Nat} (hk : ys[k]? = some x) : y ≠ x := by
      rintro rfl
      have := List.count_pos_iff.mpr (List.mem_of_getElem? hk)
      simp at h
      omega
    cases i with
    | zero =>
      cases j with
      | zero => rfl
      | succ j => exact absurd (by simpa using hi) (hrest (by simpa using hj))
    | succ i =>
      have hy := hrest (by simpa using hi)
      cases j with
      | zero => exact absurd (by simpa using hj) hy
      | succ j =>
        rw [List.count_cons_of_ne hy] at h
        exact congrArg (· + 1) (ih h (by simpa using hi) (by simpa using hj))

theorem anchors_self {p : Nat × Nat} (h : p ∈ anchors xs xs) : p.1 = p.2 := by
  obtain ⟨x, hfirst, hsecond⟩ := anchors_agree xs xs p h
  obtain ⟨⟨y, k⟩, hy, hp⟩ := List.mem_filterMap.mp h
  rw [Option.ite_none_right_eq_some] at hp
  obtain ⟨hcount, rfl⟩ := hp.imp_right Option.some.inj
  obtain rfl : y = x := by
    rw [List.mem_zipIdx_iff_getElem?.mp hy] at hsecond
    exact Option.some.inj hsecond
  exact eq_of_count_eq_one hcount.1 hfirst hsecond

end Anchors

section Patience

variable {inner : List α → List α → Option Pairs}

def CompleteInner (inner : List α → List α → Option Pairs) : Prop :=
  ∀ xs ps, inner xs xs = some ps → ps = diagonal xs.length

theorem fillGaps_self (hinner : CompleteInner inner) (hi : i ≤ xs.length)
    (hchain : Aligned xs xs chain) (hij : ∀ p ∈ chain, p.1 = p.2 ∧ i ≤ p.1)
    (h : fillGaps inner xs xs i i chain = some ps) :
    ps = shift i i (diagonal (xs.length - i)) := by
  induction chain generalizing i ps with
  | nil =>
    obtain ⟨qs, hqs, rfl⟩ := Option.map_eq_some_iff.mp h
    rw [hinner _ _ hqs, List.length_drop]
  | cons a chain ih =>
    obtain ⟨p, q⟩ := a
    obtain ⟨rfl, hip⟩ : p = q ∧ i ≤ p := hij (p, q) List.mem_cons_self
    obtain ⟨hgrow, htail⟩ := List.pairwise_cons.mp hchain.grows
    have hp : p < xs.length := (hchain.lt List.mem_cons_self).1
    have hrest {after : Pairs} (hafter : fillGaps inner xs xs (p + 1) (p + 1) chain = some after) :
        after = shift (p + 1) (p + 1) (diagonal (xs.length - (p + 1))) := by
      refine ih hp ⟨htail, fun r hr => hchain.agrees r (List.mem_cons_of_mem _ hr)⟩ ?_ hafter
      exact fun r hr => ⟨(hij r (List.mem_cons_of_mem _ hr)).1, (hgrow r hr).1⟩
    have hsum : shift i i (diagonal (xs.length - i)) = shift i i (diagonal (p - i)) ++
        (p, p) :: shift (p + 1) (p + 1) (diagonal (xs.length - (p + 1))) := by
      rw [show xs.length - i = (p - i) + (xs.length - (p + 1) + 1) by omega, shift_diagonal_add,
        shift_diagonal_succ, Nat.add_sub_cancel' hip]
    rw [hsum]
    simp only [fillGaps, Option.bind_eq_bind] at h
    split at h
    · next he =>
      rw [Option.bind_some, Option.bind_eq_some_iff] at h
      obtain ⟨after, hafter, hps⟩ := h
      rw [← Option.some.inj hps, hrest hafter, ← he.1]
      simp [diagonal, shift]
    · simp only [Option.bind_eq_some_iff, Option.map_eq_some_iff] at h
      obtain ⟨_, ⟨before, hbefore, rfl⟩, after, hafter, hps⟩ := h
      rw [← Option.some.inj hps, hrest hafter, hinner _ _ hbefore, length_part (Nat.le_of_lt hp)]

variable [DecidableEq α]

/-- The patience alignment of a list with itself is the diagonal, at any depth that it reaches. -/
theorem patience_self (levels : Nat) : CompleteInner (patience (α := α) levels) := by
  induction levels with
  | zero => intro xs ps h; simp [patience] at h
  | succ levels ih =>
    intro xs ps h
    unfold patience at h
    split at h
    · next hempty =>
      obtain rfl : xs = [] := by simpa using hempty
      exact (Option.some.inj h).symm
    · next hne =>
      have hchain := aligned_uniqueChain xs xs
      have hdiagonal : ∀ p ∈ uniqueChain xs xs, p.1 = p.2 ∧ 0 ≤ p.1 := fun p hp =>
        ⟨anchors_self (mem_anchors_of_mem_uniqueChain hp), Nat.zero_le _⟩
      split at h
      · -- without anchors the whole list is the common beginning
        have hpos : 0 < xs.length := List.length_pos_iff.mpr (by simpa using hne)
        simp only [alignEnds, commonPrefix_self, if_pos hpos, List.drop_length] at h
        obtain ⟨qs, hqs, rfl⟩ := Option.map_eq_some_iff.mp h
        rw [ih [] qs hqs]
        simp [diagonal, shift]
      · rw [fillGaps_self ih (Nat.zero_le _) hchain hdiagonal h, Nat.sub_zero]
        exact List.map_id _

end Patience

section Patched

variable {β : Type} {key : α → β} {bs : List Block}

/-- What a list becomes from the place `i` on when the new lines of each block take the place of its
old ones. -/
def patchedFrom (xs ys : List α) : Nat → List Block → List α
  | i, [] => xs.drop i
  | i, b :: bs =>
    part xs i b.oldStart ++ (part ys b.newStart b.newStop ++ patchedFrom xs ys b.oldStop bs)

theorem Covers.patch_eq_patchedFrom (h : Covers (xs.map key) (ys.map key) i j bs) :
    patch xs ys (bs.map Block.hunk) = xs.take i ++ patchedFrom xs ys i bs := by
  induction bs generalizing i j with
  | nil => exact (List.take_append_drop i xs).symm
  | cons b bs ih =>
    obtain ⟨⟨n, hn, -⟩, hold, hnew, hrest⟩ := h
    obtain ⟨hx, -⟩ := Prod.mk.inj hn
    have hle := hrest.le_length
    rw [List.length_map, List.length_map] at hle
    have hlen : (xs.take b.oldStop).length = b.oldStop := List.length_take_of_le hle.1
    rw [List.map_cons, patch, Block.hunk_oldPast, Block.hunk_newPast, Block.hunk_oldFirst,
      Block.hunk_newFirst, ih hrest, between_natCast (by omega) hle.2,
      splice_natCast hold (by rw [List.length_append]; omega),
      List.take_append_of_le_length (by omega), List.take_take, Nat.min_eq_left hold,
      List.drop_append_of_le_length (by omega), List.drop_of_length_le (by omega),
      List.nil_append, hx, List.take_add, patchedFrom, hx]
    simp [part]

/-- Putting in the new lines of blocks outside which two lists agree up to the keys gives the new
list exactly if the lists agree there as they are. -/
theorem Covers.patchedFrom_eq_iff (h : Covers (xs.map key) (ys.map key) i j bs) :
    patchedFrom xs ys i bs = ys.drop j ↔
      ∀ s ∈ stretches xs ys i j (bs.map Block.hunk), s.1 = s.2 := by
  induction bs generalizing i j with
  | nil =>
    obtain ⟨n, hn, -⟩ := h
    obtain ⟨hx, hy⟩ := Prod.mk.inj hn
    rw [List.length_map] at hx hy
    have hall {zs : List α} (k : Nat) (hk : k ≤ zs.length) :
        between zs k zs.length = zs.drop k := by
      rw [between_natCast hk (Nat.le_refl _), part, List.take_of_length_le (by simp)]
    rw [List.map_nil, stretches, List.forall_mem_singleton, hall i (by omega), hall j (by omega)]
    rfl
  | cons b bs ih =>
    obtain ⟨⟨n, hn, -⟩, hold, hnew, hrest⟩ := h
    obtain ⟨hx, hy⟩ := Prod.mk.inj hn
    have hle := hrest.le_length
    rw [List.length_map, List.length_map] at hle
    have hsplit : ys.drop j =
        part ys j b.newStart ++ (part ys b.newStart b.newStop ++ ys.drop b.newStop) := by
      rw [part_append_drop hnew, part_append_drop (by omega)]
    have hlength : (part xs i b.oldStart).length = (part ys j b.newStart).length := by
      rw [length_part (by omega), length_part (by omega)]
      omega
    rw [List.map_cons, stretches, List.forall_mem_cons, Block.hunk_oldPast, Block.hunk_newPast,
      Block.hunk_oldFirst, Block.hunk_newFirst, between_natCast (by omega) (by omega),
      between_natCast (by omega) (by omega), ← ih hrest, patchedFrom, hsplit]
    constructor
    · intro heq
      obtain ⟨hbefore, hafter⟩ := List.append_inj heq hlength
      exact ⟨hbefore, List.append_cancel_left hafter⟩
    · rintro ⟨hbefore, hafter⟩
      dsimp only at hbefore
      rw [hbefore, hafter]

/-- The hunks between two lists of lines turn the old lines into the new ones exactly if the lines
outside the hunks are the same as they are, and not only their keys. -/
theorem patch_eq_iff {o : Options} {old new : List Text} {hs : List Hunk}
    (h : hunks o old new = some hs) :
    patch old new hs = new ↔ ∀ s ∈ stretches old new 0 0 hs, s.1 = s.2 := by
  obtain ⟨bs, rfl, hcover, -⟩ := hunks_covers h
  rw [hcover.patch_eq_patchedFrom, List.take_zero, List.nil_append]
  exact hcover.patchedFrom_eq_iff

end Patched

section Empty

variable {o : Options} {old new : List Text} {hs : List Hunk}

theorem Options.align_self {pairs : Pairs} (h : o.align old old = some pairs) :
    pairs = diagonal old.length := by
  unfold Options.align at h
  split at h
  · exact patience_self _ _ _ h
  · rw [← Option.some.inj h]
    exact longestRuns_self _ old

theorem Options.blocks_self {bs : List Block} (h : o.blocks old old = some bs) : bs = [] := by
  obtain ⟨pairs, hpairs, rfl⟩ := Option.map_eq_some_iff.mp h
  have hgaps := gaps_diagonal 0 0 old.length
  rw [Nat.zero_add, show shift 0 0 _ = diagonal _ from List.map_id _,
    ← Options.align_self hpairs] at hgaps
  simp [hgaps, slideBlocks]

/-- There are no hunks between lists of lines exactly if their keys are the same. -/
theorem hunks_eq_nil_iff (h : hunks o old new = some hs) :
    hs = [] ↔ old.map o.key = new.map o.key := by
  constructor
  · rintro rfl
    obtain ⟨bs, hbs, hcover, -⟩ := hunks_covers h
    obtain rfl : bs = [] := List.map_eq_nil_iff.mp hbs.symm
    exact hcover.eq_of_nil
  · intro hkeys
    obtain ⟨blocks, hblocks, rfl⟩ := Option.map_eq_some_iff.mp h
    rw [← hkeys] at hblocks
    rw [Options.blocks_self hblocks]
    rfl

theorem terminated_eq_empty {ls : List Text} (h : Text.terminated ls = "") : ls = [] := by
  cases ls with
  | nil => rfl
  | cons l ls =>
    have hletters : (Text.join (l :: ls)).letters ++ [Letter.char '\n'] = [] :=
      congrArg Text.letters h
    simp at hletters

theorem unified_ne_empty (h : old ≠ new) (path : Text) : unified old new path ≠ "" := by
  intro hempty
  have hlines := terminated_eq_empty hempty
  unfold unifiedLines at hlines
  dsimp only at hlines
  split at hlines
  · next hgaps => exact h ((aligned_longestRuns _ old new).eq_of_gaps hgaps)
  · cases hlines

end Empty

end Hunkwise.Diff
