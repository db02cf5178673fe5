import Hunkwise.Diff.Hunk
import Hunkwise.Proofs.LongestRun
import Hunkwise.Proofs.PatienceChain
import Hunkwise.Proofs.Sliding
import Hunkwise.Text.Slice

/-! Hunks say how the old lines become the new ones. The gaps of an alignment cover all that
differs; sliding, joining and widening keep the cover, and joining leaves more than twice the
context between two blocks, so that they are still apart after widening. -/

namespace Hunkwise.Diff

variable {α : Type} {xs ys : List α} {i j c d : Nat} {bs : List Block}

theorem Covers.bounds (h : Covers xs ys i j bs) : ∀ b ∈ bs,
    (i ≤ b.oldStart ∧ b.oldStart ≤ b.oldStop ∧ b.oldStop ≤ xs.length) ∧
      j ≤ b.newStart ∧ b.newStart ≤ b.newStop ∧ b.newStop ≤ ys.length := by
  induction bs generalizing i j with
  | nil => intro b hb; exact absurd hb List.not_mem_nil
  | cons b bs ih =>
    obtain ⟨⟨n, hn, -⟩, hold, hnew, hrest⟩ := h
    have hstart := Prod.mk.inj hn
    have hle := hrest.le_length
    intro b' hb'
    rcases List.mem_cons.mp hb' with rfl | hb'
    · omega
    · have := ih hrest b' hb'
      omega

/-- More than `d` unchanged lines lie between the blocks. -/
def Block.Apart (d : Nat) (a b : Block) : Prop :=
  a.oldStop + d < b.oldStart ∧ a.newStop + d < b.newStart

/-- The gap to the next block is the same on both sides, so it is enough to measure one. -/
theorem Covers.apart (h : Covers xs ys i j bs)
    (hd : bs.Pairwise fun a b => a.oldStop + d < b.oldStart) : bs.Pairwise (Block.Apart d) := by
  induction bs generalizing i j with
  | nil => exact .nil
  | cons b bs ih =>
    obtain ⟨hhead, htail⟩ := List.pairwise_cons.mp hd
    refine List.pairwise_cons.mpr ⟨?_, ih h.2.2.2 htail⟩
    intro b' hb'
    refine ⟨hhead b' hb', ?_⟩
    cases bs with
    | nil => exact absurd hb' List.not_mem_nil
    | cons next rest =>
      obtain ⟨⟨n, hn, -⟩, -, hnew, hrest⟩ := h.2.2.2
      have hstart := Prod.mk.inj hn
      have hfirst := hhead next List.mem_cons_self
      rcases List.mem_cons.mp hb' with rfl | hb'
      · omega
      · have := hrest.bounds b' hb'
        omega

theorem joinBlocks_covers (h : Covers xs ys i j bs) : Covers xs ys i j (joinBlocks d bs) := by
  induction bs generalizing i j with
  | nil => exact h
  | cons b bs ih =>
    obtain ⟨hgap, hold, hnew, hrest⟩ := h
    have hjoined := ih hrest
    unfold joinBlocks
    split
    · next he => rw [he] at hjoined; exact ⟨hgap, hold, hnew, hjoined⟩
    · next next rest he =>
      rw [he] at hjoined
      split
      · have := hjoined.bounds next List.mem_cons_self
        exact ⟨hgap, by dsimp only; omega, by dsimp only; omega, hjoined.2.2.2⟩
      · exact ⟨hgap, hold, hnew, hjoined⟩

theorem joinBlocks_apart (h : Covers xs ys i j bs) :
    (joinBlocks d bs).Pairwise fun a b => a.oldStop + d < b.oldStart := by
  induction bs generalizing i j with
  | nil => exact .nil
  | cons b bs ih =>
    have hjoined := joinBlocks_covers (d := d) h.2.2.2
    have hapart := ih h.2.2.2
    unfold joinBlocks
    split
    · exact List.pairwise_singleton _ _
    · next next rest he =>
      rw [he] at hjoined hapart
      obtain ⟨hnext, hrest⟩ := List.pairwise_cons.mp hapart
      split
      · exact List.pairwise_cons.mpr ⟨hnext, hrest⟩
      · next hfar =>
        refine List.pairwise_cons.mpr ⟨?_, hapart⟩
        intro b' hb'
        have hb := hjoined.bounds next List.mem_cons_self
        rcases List.mem_cons.mp hb' with rfl | hb'
        · omega
        · have := hnext b' hb'
          omega

/-- A block with `c` more lines on either side, as far as there are any. -/
def Block.widen (c m n : Nat) (b : Block) : Block :=
  ⟨b.oldStart - c, min m (b.oldStop + c), b.newStart - c, min n (b.newStop + c)⟩

def Block.hunk (b : Block) : Hunk :=
  ⟨b.oldStart + 1, (b.oldStop : Int) - b.oldStart, b.newStart + 1, (b.newStop : Int) - b.newStart⟩

theorem Block.toHunk_eq (b : Block) (c m n : Nat) : b.toHunk c m n = (b.widen c m n).hunk := rfl

/-- Widening, seen from the end of a block that was widened before. -/
theorem Covers.widen_after (h : Covers xs ys i j bs) (hi : ∀ b ∈ bs, i + 2 * c < b.oldStart)
    (hd : bs.Pairwise fun a b => a.oldStop + 2 * c < b.oldStart) :
    Covers xs ys (min xs.length (i + c)) (min ys.length (j + c))
      (bs.map (Block.widen c xs.length ys.length)) := by
  induction bs generalizing i j with
  | nil =>
    obtain ⟨n, hn, ha⟩ := h
    have hlen := Prod.mk.inj hn
    refine ⟨n - c, by rw [Prod.mk.injEq]; omega, ?_⟩
    rw [show min xs.length (i + c) = i + min n c by omega,
      show min ys.length (j + c) = j + min n c by omega]
    exact ha.sub (by omega)
  | cons b bs ih =>
    obtain ⟨⟨n, hn, ha⟩, hold, hnew, hrest⟩ := h
    obtain ⟨hhead, htail⟩ := List.pairwise_cons.mp hd
    have hstart := Prod.mk.inj hn
    have hfar := hi b List.mem_cons_self
    have hle := hrest.le_length
    rw [show min xs.length (i + c) = i + c by omega, show min ys.length (j + c) = j + c by omega]
    refine ⟨⟨n - 2 * c, ?_, ha.sub (by omega)⟩, ?_, ?_, ih hrest hhead htail⟩
    · rw [Prod.mk.injEq]; dsimp only [Block.widen]; omega
    · dsimp only [Block.widen]; omega
    · dsimp only [Block.widen]; omega

/-- Blocks with more than twice the context between them still cover all that differs once they are
widened. At the start both sides are cut off alike, for the first block stands at the same place. -/
theorem Covers.widen (h : Covers xs ys 0 0 bs)
    (hd : bs.Pairwise fun a b => a.oldStop + 2 * c < b.oldStart) :
    Covers xs ys 0 0 (bs.map (Block.widen c xs.length ys.length)) := by
  cases bs with
  | nil => exact h
  | cons b bs =>
    obtain ⟨⟨n, hn, ha⟩, hold, hnew, hrest⟩ := h
    obtain ⟨hhead, htail⟩ := List.pairwise_cons.mp hd
    have hstart := Prod.mk.inj hn
    have hle := hrest.le_length
    refine ⟨⟨n - c, ?_, ha.mono (by omega)⟩, ?_, ?_, hrest.widen_after hhead htail⟩
    · rw [Prod.mk.injEq]; dsimp only [Block.widen]; omega
    · dsimp only [Block.widen]; omega
    · dsimp only [Block.widen]; omega

theorem Options.align_aligned {o : Options} {old new : List Text} {ps : Pairs}
    (h : o.align old new = some ps) : Aligned old new ps := by
  unfold Options.align at h
  split at h
  · exact aligned_patience _ _ _ _ h
  · rw [← Option.some.inj h]
    exact aligned_longestRuns _ _ _

theorem Options.blocks_covers {o : Options} {old new : List Text} (h : o.blocks old new = some bs) :
    Covers old new 0 0 bs := by
  obtain ⟨ps, hps, rfl⟩ := Option.map_eq_some_iff.mp h
  have hgaps := covers_gaps (Options.align_aligned hps) (Nat.zero_le _) (Nat.zero_le _)
    fun _ _ => ⟨Nat.zero_le _, Nat.zero_le _⟩
  dsimp only
  split
  · exact slideBlocks_covers hgaps
  · exact hgaps

/-- The hunks between two lists of lines are the lines of blocks that cover all in which the keys
differ, with unchanged lines between any two. -/
theorem hunks_covers {o : Options} {old new : List Text} {hs : List Hunk}
    (h : hunks o old new = some hs) :
    ∃ bs, hs = bs.map Block.hunk ∧ Covers (old.map o.key) (new.map o.key) 0 0 bs ∧
      bs.Pairwise (Block.Apart o.joinWithin) := by
  obtain ⟨blocks, hblocks, rfl⟩ := Option.map_eq_some_iff.mp h
  have hcover := Options.blocks_covers hblocks
  have hjoined := joinBlocks_covers (d := 2 * o.context + o.joinWithin) hcover
  have hapart := joinBlocks_apart (d := 2 * o.context + o.joinWithin) hcover
  have hwide := hjoined.widen (c := o.context) (hapart.imp (by omega))
  rw [List.length_map, List.length_map] at hwide
  refine ⟨_, ?_, hwide, hwide.apart (List.pairwise_map.mpr (hapart.imp ?_))⟩
  · rw [List.map_map]
    exact List.map_congr_left fun b _ => b.toHunk_eq ..
  · intro a b hab
    dsimp only [Block.widen]
    omega

/-- One hunk lies above another on both sides, and they share no line. -/
structure Hunk.Above (a b : Hunk) : Prop where
  old_lt : a.oldStart < b.oldStart
  old_disjoint : a.oldStart + a.oldCount ≤ b.oldStart
  new_lt : a.newStart < b.newStart
  new_disjoint : a.newStart + a.newCount ≤ b.newStart

/-- The lines of a hunk are lines of the texts, which have `m` and `n`. A hunk without lines on one
side may stand one past the end there. -/
structure Hunk.Within (m n : Nat) (h : Hunk) : Prop where
  old_start : 1 ≤ h.oldStart
  old_count : 0 ≤ h.oldCount
  old_stop : h.oldStart + h.oldCount ≤ m + 1
  new_start : 1 ≤ h.newStart
  new_count : 0 ≤ h.newCount
  new_stop : h.newStart + h.newCount ≤ n + 1

/-- The stretches outside the hunks, old and new, from the places `i` and `j` on: what comes before
each hunk and what comes after the last. -/
def stretches (old new : List α) : Int → Int → List Hunk → List (List α × List α)
  | i, j, [] => [(between old i old.length, between new j new.length)]
  | i, j, h :: hs =>
    (between old i (h.oldStart - 1), between new j (h.newStart - 1)) ::
      stretches old new (h.oldStart - 1 + h.oldCount) (h.newStart - 1 + h.newCount) hs

/-- The old list with the new lines of each hunk in the place of its old ones. The last hunk goes
first, so that no replacement moves the lines of another. -/
def patch (old new : List α) : List Hunk → List α
  | [] => old
  | h :: hs => splice (patch old new hs) (h.oldStart - 1) (h.oldStart - 1 + h.oldCount)
      (between new (h.newStart - 1) (h.newStart - 1 + h.newCount))

section HunkPlaces

variable (b : Block)

@[simp] theorem Block.hunk_oldFirst : b.hunk.oldStart - 1 = b.oldStart := by
  dsimp only [Block.hunk]; omega

@[simp] theorem Block.hunk_oldPast : b.hunk.oldStart - 1 + b.hunk.oldCount = b.oldStop := by
  dsimp only [Block.hunk]; omega

@[simp] theorem Block.hunk_newFirst : b.hunk.newStart - 1 = b.newStart := by
  dsimp only [Block.hunk]; omega

@[simp] theorem Block.hunk_newPast : b.hunk.newStart - 1 + b.hunk.newCount = b.newStop := by
  dsimp only [Block.hunk]; omega

end HunkPlaces

theorem Block.Apart.above {a b : Block} (h : a.Apart d b) (ha : a.oldStart ≤ a.oldStop)
    (ha' : a.newStart ≤ a.newStop) : a.hunk.Above b.hunk := by
  obtain ⟨hold, hnew⟩ := h
  constructor <;> dsimp only [Block.hunk] <;> omega

theorem between_natCast {a b : Nat} (ha : a ≤ xs.length) (hb : b ≤ xs.length) :
    between xs a b = part xs a b := by
  unfold between part
  rw [clampBound_natCast ha, clampBound_natCast hb]

theorem part_append_drop {a b : Nat} (hab : a ≤ b) : part xs a b ++ xs.drop b = xs.drop a := by
  have : xs.drop b = (xs.drop a).drop (b - a) := by rw [List.drop_drop, Nat.add_sub_cancel' hab]
  rw [part, this, List.take_append_drop]

theorem Agree.part_eq {n : Nat} (h : Agree xs ys i j n) :
    part xs i (i + n) = part ys j (j + n) := by
  unfold part
  rw [Nat.add_sub_cancel_left, Nat.add_sub_cancel_left, h.take_drop_eq]

theorem Covers.stretches_eq (h : Covers xs ys i j bs) :
    ∀ s ∈ stretches xs ys i j (bs.map Block.hunk), s.1 = s.2 := by
  induction bs generalizing i j with
  | nil =>
    obtain ⟨n, hn, ha⟩ := h
    obtain ⟨hx, hy⟩ := Prod.mk.inj hn
    intro s hs
    rw [List.mem_singleton.mp hs, between_natCast (by omega) (by omega),
      between_natCast (by omega) (by omega), hx, hy]
    exact ha.part_eq
  | cons b bs ih =>
    obtain ⟨⟨n, hn, ha⟩, hold, hnew, hrest⟩ := h
    obtain ⟨hx, hy⟩ := Prod.mk.inj hn
    have hle := hrest.le_length
    intro s hs
    rw [List.map_cons, stretches, Block.hunk_oldPast, Block.hunk_newPast] at hs
    rcases List.mem_cons.mp hs with rfl | hs
    · rw [Block.hunk_oldFirst, Block.hunk_newFirst, between_natCast (by omega) (by omega),
        between_natCast (by omega) (by omega), hx, hy]
      exact ha.part_eq
    · exact ih hrest s hs

/-- Replacing from some places on leaves the old list before them and gives the new one after. -/
theorem Covers.patch_eq (h : Covers xs ys i j bs) :
    patch xs ys (bs.map Block.hunk) = xs.take i ++ ys.drop j := by
  induction bs generalizing i j with
  | nil =>
    obtain ⟨n, hn, ha⟩ := h
    obtain ⟨hx, hy⟩ := Prod.mk.inj hn
    rw [← ha.drop_eq hx hy, List.take_append_drop]
    rfl
  | cons b bs ih =>
    obtain ⟨⟨n, hn, ha⟩, hold, hnew, hrest⟩ := h
    obtain ⟨hx, hy⟩ := Prod.mk.inj hn
    have hle := hrest.le_length
    have hlen : (xs.take b.oldStop).length = b.oldStop := List.length_take_of_le hle.1
    have hcut : (ys.drop j).take n ++ ys.drop b.newStart = ys.drop j := by
      rw [hy, ← List.drop_drop, List.take_append_drop]
    rw [List.map_cons, patch, Block.hunk_oldPast, Block.hunk_newPast, Block.hunk_oldFirst,
      Block.hunk_newFirst, ih hrest, between_natCast (by omega) hle.2,
      splice_natCast hold (by rw [List.length_append]; omega)]
    calc
      (xs.take b.oldStop ++ ys.drop b.newStop).take b.oldStart ++ part ys b.newStart b.newStop
          ++ (xs.take b.oldStop ++ ys.drop b.newStop).drop b.oldStop
        = xs.take b.oldStart ++ part ys b.newStart b.newStop ++ ys.drop b.newStop := by
          rw [List.take_append_of_le_length (by omega), List.take_take, Nat.min_eq_left hold,
            List.drop_append_of_le_length (by omega), List.drop_of_length_le (by omega),
            List.nil_append]
      _ = xs.take b.oldStart ++ ys.drop b.newStart := by
          rw [List.append_assoc, part_append_drop hnew]
      _ = xs.take i ++ ((xs.drop i).take n ++ ys.drop b.newStart) := by
          rw [hx, List.take_add, List.append_assoc]
      _ = xs.take i ++ ys.drop j := by rw [ha.take_drop_eq, hcut]

theorem hunks_above {o : Options} {old new : List Text} {hs : List Hunk}
    (h : hunks o old new = some hs) : hs.Pairwise Hunk.Above := by
  obtain ⟨bs, rfl, hcover, hapart⟩ := hunks_covers h
  refine List.pairwise_map.mpr (hapart.imp_of_mem ?_)
  intro a b ha _ hab
  have hbound := hcover.bounds a ha
  exact hab.above hbound.1.2.1 hbound.2.2.1

theorem hunks_within {o : Options} {old new : List Text} {hs : List Hunk}
    (h : hunks o old new = some hs) : ∀ h ∈ hs, h.Within old.length new.length := by
  obtain ⟨bs, rfl, hcover, -⟩ := hunks_covers h
  intro h hh
  obtain ⟨b, hb, rfl⟩ := List.mem_map.mp hh
  have hbound := hcover.bounds b hb
  rw [List.length_map, List.length_map] at hbound
  constructor <;> dsimp only [Block.hunk] <;> omega

/-- The hunks of two lists of lines are in order and share no line, and putting the new lines of every
hunk in the place of its old ones turns the old keys into the new ones. -/
theorem hunks_describe_change {o : Options} {old new : List Text} {hs : List Hunk}
    (h : hunks o old new = some hs) :
    hs.Pairwise Hunk.Above ∧ (∀ h ∈ hs, h.Within old.length new.length) ∧
      (∀ s ∈ stretches (old.map o.key) (new.map o.key) 0 0 hs, s.1 = s.2) ∧
      patch (old.map o.key) (new.map o.key) hs = new.map o.key := by
  refine ⟨hunks_above h, hunks_within h, ?_⟩
  obtain ⟨bs, rfl, hcover, -⟩ := hunks_covers h
  exact ⟨hcover.stretches_eq, hcover.patch_eq⟩

/-- An insertion that slides up to the blank line before it, and a changed line too far below to
share its context. -/
theorem hunks_describe_slid_insertion :
    let o : Options := { context := 1 }
    let old : List Text := ["a", "", "b", "c", "d", "e", "f\r"]
    let new : List Text := ["a", "", "x", "", "b", "c", "d", "E", "f"]
    let hs : List Hunk := [⟨1, 2, 1, 4⟩, ⟨5, 3, 7, 3⟩]
    hunks o old new = some hs ∧ hs.Pairwise Hunk.Above ∧
      (∀ h ∈ hs, h.Within old.length new.length) ∧
      (∀ s ∈ stretches (old.map o.key) (new.map o.key) 0 0 hs, s.1 = s.2) ∧
      patch (old.map o.key) (new.map o.key) hs = new.map o.key := by
  intro o old new hs
  have h : hunks o old new = some hs := by decide +kernel
  exact ⟨h, hunks_describe_change h⟩

end Hunkwise.Diff
