import Hunkwise.Proofs.Calls

/-! Lines of the baseline survive formatting. Without context the hunks of a diff hold no line that
the diff pairs with a line of the baseline, and joining hunks that touch adds none. So a formatter
that keeps to its range rewrites no such line, and what the baseline has outside the hunks is still
there, in order, after every call of a run. -/

namespace Hunkwise.Diff

variable {α β : Type} {xs ys : List α} {i j m line : Nat} {b : Block} {bs : List Block}
  {hs : List Hunk}

section Unchanged

/-- The pairs of places outside the blocks, from the places `i` and `j` on, in an old list of `m`
lines. -/
def unchanged (m : Nat) : Nat → Nat → List Block → Pairs
  | i, j, [] => shift i j (diagonal (m - i))
  | i, j, b :: bs => shift i j (diagonal (b.oldStart - i)) ++ unchanged m b.oldStop b.newStop bs

/-- The places of the lines that a diff takes for the same on both sides. -/
def Options.pairs (o : Options) (old new : List Text) : Option Pairs :=
  (o.blocks (old.map o.key) (new.map o.key)).map (unchanged old.length 0 0)

theorem mem_shift_diagonal {n : Nat} {p : Nat × Nat} :
    p ∈ shift i j (diagonal n) ↔ ∃ k < n, p = (i + k, j + k) := by
  simp only [shift, diagonal, List.map_map, List.mem_map, List.mem_range, Function.comp_apply,
    Nat.add_comm i, Nat.add_comm j, eq_comm]

theorem shift_diagonal_succ (n : Nat) :
    shift i j (diagonal (n + 1)) = (i, j) :: shift (i + 1) (j + 1) (diagonal n) := by
  simp only [shift, diagonal, List.range_succ_eq_map, List.map_cons, List.map_map]
  simp [Function.comp_def, Nat.add_assoc, Nat.add_comm 1]

/-- Blocks that touch are joined without a pair between them, so joining them takes none away. -/
theorem Covers.unchanged_joinBlocks (h : Covers xs ys i j bs) :
    unchanged xs.length i j (joinBlocks 0 bs) = unchanged xs.length i j bs := by
  induction bs generalizing i j with
  | nil => rfl
  | cons b bs ih =>
    obtain ⟨-, hold, hnew, hrest⟩ := h
    have hjoined := joinBlocks_covers (d := 0) hrest
    rw [unchanged, ← ih hrest, joinBlocks]
    cases he : joinBlocks 0 bs with
    | nil => rfl
    | cons next rest =>
      rw [he] at hjoined
      obtain ⟨⟨n, hn, -⟩, -⟩ := hjoined
      have hstart := Prod.mk.inj hn
      dsimp only
      split
      · rw [unchanged, unchanged, show next.oldStart - b.oldStop = 0 by omega]
        rfl
      · rfl

/-- The pairs from some places on lie there, and none of them lies in a block. -/
theorem Covers.unchanged_apart (h : Covers xs ys i j bs) :
    ∀ p ∈ unchanged xs.length i j bs, j ≤ p.2 ∧ ∀ b ∈ bs, p.2 < b.newStart ∨ b.newStop ≤ p.2 := by
  induction bs generalizing i j with
  | nil =>
    intro p hp
    obtain ⟨k, -, rfl⟩ := mem_shift_diagonal.mp hp
    exact ⟨Nat.le_add_right j k, fun b hb => absurd hb List.not_mem_nil⟩
  | cons b bs ih =>
    have hbounds := h.bounds
    obtain ⟨⟨n, hn, -⟩, -, hnew, hrest⟩ := h
    have hstart := Prod.mk.inj hn
    intro p hp
    rcases List.mem_append.mp hp with hp | hp
    · -- a pair before the first block lies before all of them
      obtain ⟨k, hk, rfl⟩ := mem_shift_diagonal.mp hp
      refine ⟨Nat.le_add_right j k, ?_⟩
      intro b' hb'
      rcases List.mem_cons.mp hb' with rfl | hb'
      · left; dsimp only; omega
      · have := hrest.bounds b' hb'
        left; dsimp only; omega
    · obtain ⟨hle, hapart⟩ := ih hrest p hp
      refine ⟨by omega, ?_⟩
      intro b' hb'
      rcases List.mem_cons.mp hb' with rfl | hb'
      · exact .inr hle
      · exact hapart b' hb'

end Unchanged

section Outside

def Hunk.hasOld (h : Hunk) (line : Int) : Bool :=
  decide (h.oldStart ≤ line ∧ line < h.oldStart + h.oldCount)

/-- The lines that stand in the old range of no hunk; the first of them is the line `line`. -/
def outside (hs : List Hunk) : Nat → List α → List α
  | _, [] => []
  | line, x :: xs =>
    if hs.any (·.hasOld line) then outside hs (line + 1) xs else x :: outside hs (line + 1) xs

theorem outside_append (line : Nat) (xs ys : List α) :
    outside hs line (xs ++ ys) = outside hs line xs ++ outside hs (line + xs.length) ys := by
  induction xs generalizing line with
  | nil => rfl
  | cons x xs ih =>
    rw [List.cons_append, outside, outside, ih, List.length_cons, Nat.add_right_comm line 1,
      Nat.add_assoc]
    split <;> rfl

theorem outside_map (f : α → β) (line : Nat) (xs : List α) :
    outside hs line (xs.map f) = (outside hs line xs).map f := by
  induction xs generalizing line with
  | nil => rfl
  | cons x xs ih =>
    rw [List.map_cons, outside, outside, ih]
    split <;> rfl

theorem outside_of_none (h : ∀ k, line ≤ k → k < line + xs.length → ∀ h ∈ hs, h.hasOld k = false) :
    outside hs line xs = xs := by
  induction xs generalizing line with
  | nil => rfl
  | cons x xs ih =>
    have hhere : hs.any (·.hasOld line) = false := by
      simpa using h line (Nat.le_refl _) (by simp)
    rw [outside, hhere, if_neg Bool.false_ne_true]
    rw [ih fun k hk hk' => h k (by omega) (by rw [List.length_cons]; omega)]

theorem outside_of_one {h : Hunk} (hh : h ∈ hs)
    (hall : ∀ k, line ≤ k → k < line + xs.length → h.hasOld k = true) :
    outside hs line xs = [] := by
  induction xs generalizing line with
  | nil => rfl
  | cons x xs ih =>
    have hhere : hs.any (·.hasOld line) = true :=
      List.any_eq_true.mpr ⟨h, hh, hall line (Nat.le_refl _) (by simp)⟩
    rw [outside, hhere, if_pos rfl]
    exact ih fun k hk hk' => hall k (by omega) (by rw [List.length_cons]; omega)

/-- A hunk that ends before the first line takes none of the lines. -/
theorem outside_cons_of_past {h : Hunk} (hpast : ∀ k, line ≤ k → h.hasOld k = false)
    (xs : List α) : outside (h :: hs) line xs = outside hs line xs := by
  induction xs generalizing line with
  | nil => rfl
  | cons x xs ih =>
    rw [outside, outside, List.any_cons, hpast line (Nat.le_refl _), Bool.false_or,
      ih fun k hk => hpast k (by omega)]

theorem Block.hasOld_hunk (b : Block) (k : Nat) :
    b.hunk.hasOld (k + 1 : Nat) = decide (b.oldStart ≤ k ∧ k < b.oldStop) := by
  unfold Hunk.hasOld Block.hunk
  rw [decide_eq_decide]
  dsimp only
  omega

theorem Block.hasOld_hunk_of_past {k : Nat} (h : b.oldStop < k) : b.hunk.hasOld k = false := by
  obtain ⟨k, rfl⟩ : ∃ n, k = n + 1 := ⟨k - 1, by omega⟩
  rw [Block.hasOld_hunk, decide_eq_false_iff_not]
  omega

theorem length_part {a b : Nat} (h : b ≤ xs.length) : (part xs a b).length = b - a := by
  rw [part, List.length_take, List.length_drop]
  omega

/-- Outside the blocks lies what is before the first block, and what is outside of the others after
it. -/
theorem Covers.outside_cons (h : Covers xs ys i j (b :: bs)) :
    outside ((b :: bs).map Block.hunk) (i + 1) (xs.drop i) =
      part xs i b.oldStart ++ outside (bs.map Block.hunk) (b.oldStop + 1) (xs.drop b.oldStop) := by
  have hb := h.bounds b List.mem_cons_self
  have hfirst : (part xs i b.oldStart).length = b.oldStart - i := length_part (by omega)
  have hsecond : (part xs b.oldStart b.oldStop).length = b.oldStop - b.oldStart :=
    length_part hb.1.2.2
  have hsplit : xs.drop i =
      part xs i b.oldStart ++ (part xs b.oldStart b.oldStop ++ xs.drop b.oldStop) := by
    rw [part_append_drop hb.1.2.1, part_append_drop hb.1.1]
  rw [hsplit, outside_append, outside_append, hfirst, hsecond,
    show i + 1 + (b.oldStart - i) = b.oldStart + 1 by omega,
    show b.oldStart + 1 + (b.oldStop - b.oldStart) = b.oldStop + 1 by omega]
  -- the stretch before the block is in no hunk, the block's own lines are, and the rest is past it
  have hbefore : outside ((b :: bs).map Block.hunk) (i + 1) (part xs i b.oldStart) =
      part xs i b.oldStart := by
    apply outside_of_none
    intro k hk hk' g hg
    obtain ⟨c, hc, rfl⟩ := List.mem_map.mp hg
    obtain ⟨k, rfl⟩ : ∃ n, k = n + 1 := ⟨k - 1, by omega⟩
    have hle : b.oldStart ≤ c.oldStart := by
      rcases List.mem_cons.mp hc with rfl | hc
      · exact Nat.le_refl _
      · have := h.2.2.2.bounds c hc
        omega
    rw [Block.hasOld_hunk, decide_eq_false_iff_not]
    omega
  have hblock : outside ((b :: bs).map Block.hunk) (b.oldStart + 1)
      (part xs b.oldStart b.oldStop) = [] := by
    apply outside_of_one (List.mem_map_of_mem List.mem_cons_self)
    intro k hk hk'
    obtain ⟨k, rfl⟩ : ∃ n, k = n + 1 := ⟨k - 1, by omega⟩
    rw [Block.hasOld_hunk, decide_eq_true_iff]
    omega
  rw [hbefore, hblock, List.nil_append, List.map_cons,
    outside_cons_of_past fun k hk => Block.hasOld_hunk_of_past (by omega)]

theorem Covers.outside_sublist (h : Covers xs ys i j bs) :
    (outside (bs.map Block.hunk) (i + 1) (xs.drop i)).Sublist (ys.drop j) := by
  induction bs generalizing i j with
  | nil =>
    obtain ⟨n, hn, ha⟩ := h
    obtain ⟨hx, hy⟩ := Prod.mk.inj hn
    have hall : outside ([].map Block.hunk) (i + 1) (xs.drop i) = ys.drop j := by
      rw [List.map_nil, outside_of_none fun _ _ _ _ hg => absurd hg List.not_mem_nil,
        ha.drop_eq hx hy]
    exact hall ▸ List.Sublist.refl _
  | cons b bs ih =>
    rw [h.outside_cons]
    obtain ⟨⟨n, hn, ha⟩, -, hnew, hrest⟩ := h
    obtain ⟨hx, hy⟩ := Prod.mk.inj hn
    have hsplit : ys.drop j = part ys j b.newStart ++ ys.drop b.newStart :=
      (part_append_drop (by omega)).symm
    rw [hx, ha.part_eq, ← hy, hsplit]
    exact (List.Sublist.refl _).append ((ih hrest).trans (List.drop_sublist_drop_left ys hnew))

theorem part_append_part {a b c : Nat} (hab : a ≤ b) (hbc : b ≤ c) :
    part xs a b ++ part xs b c = part xs a c := by
  simp only [part]
  rw [show c - a = b - a + (c - b) by omega, List.take_add, List.drop_drop,
    Nat.add_sub_cancel' hab]

/-- What is outside the blocks on the old side is still there on the new side when the new lines of
one block are replaced. -/
theorem Covers.outside_sublist_replaced (h : Covers xs ys i j bs) (hb : b ∈ bs)
    (replacement : List α) :
    (outside (bs.map Block.hunk) (i + 1) (xs.drop i)).Sublist
      (part ys j b.newStart ++ (replacement ++ ys.drop b.newStop)) := by
  induction bs generalizing i j with
  | nil => exact absurd hb List.not_mem_nil
  | cons c bs ih =>
    rw [h.outside_cons]
    obtain ⟨⟨n, hn, ha⟩, -, hnew, hrest⟩ := h
    obtain ⟨hx, hy⟩ := Prod.mk.inj hn
    rw [hx, ha.part_eq, ← hy]
    rcases List.mem_cons.mp hb with rfl | hb
    · exact (List.Sublist.refl _).append
        (hrest.outside_sublist.trans (List.sublist_append_right _ _))
    · have hlater := hrest.bounds b hb
      have hsplit : part ys j b.newStart =
          part ys j c.newStart ++ (part ys c.newStart c.newStop ++ part ys c.newStop b.newStart) := by
        rw [part_append_part hnew hlater.2.1, part_append_part (by omega) (by omega)]
      rw [hsplit, List.append_assoc, List.append_assoc]
      exact (List.Sublist.refl _).append ((ih hrest hb).trans (List.sublist_append_right _ _))

end Outside

section WithoutContext

variable {o : Options} {old new : List Text} {h : Hunk}

/-- Without context a hunk is a block as it is: what the blocks touch, and nothing else, is
joined. -/
theorem hunks_of_blocks (hc : o.context = 0) (hj : o.joinWithin = 0)
    (hhs : hunks o old new = some hs) :
    ∃ blocks, o.blocks (old.map o.key) (new.map o.key) = some blocks ∧
      hs = (joinBlocks 0 blocks).map Block.hunk := by
  obtain ⟨blocks, hblocks, rfl⟩ := Option.map_eq_some_iff.mp hhs
  refine ⟨blocks, hblocks, ?_⟩
  have hbounds := (joinBlocks_covers (d := 0) (Options.blocks_covers hblocks)).bounds
  rw [List.length_map, List.length_map] at hbounds
  rw [hc, hj]
  apply List.map_congr_left
  intro b hb
  have := hbounds b hb
  rw [Block.toHunk_eq]
  unfold Block.widen
  congr 1
  cases b
  simp only [Block.mk.injEq] at *
  omega

/-- Without context no new line of a hunk is paired with an old line. -/
theorem hunks_spare_pairs (hc : o.context = 0) (hj : o.joinWithin = 0)
    (hhs : hunks o old new = some hs) :
    ∃ pairs, o.pairs old new = some pairs ∧
      ∀ h ∈ hs, ∀ p ∈ pairs, ¬(h.newStart ≤ p.2 + 1 ∧ p.2 + 1 ≤ h.lastLine) := by
  obtain ⟨blocks, hblocks, rfl⟩ := hunks_of_blocks hc hj hhs
  refine ⟨_, by rw [Options.pairs, hblocks]; rfl, ?_⟩
  intro h hh p hp
  obtain ⟨b, hb, rfl⟩ := List.mem_map.mp hh
  have hcover := Options.blocks_covers hblocks
  have hjoined := hcover.unchanged_joinBlocks
  rw [List.length_map] at hjoined
  have hapart := (joinBlocks_covers (d := 0) hcover).unchanged_apart
  rw [List.length_map] at hapart
  have := (hapart p (by rw [hjoined]; exact hp)).2 b hb
  dsimp only [Block.hunk, Hunk.lastLine]
  omega

/-- The old lines outside the hunks are still there, in order, when the new lines of one hunk are
replaced. -/
theorem hunks_keep_outside (hhs : hunks o old new = some hs) (hh : h ∈ hs)
    (replacement : List Text) :
    ((outside hs 1 old).map o.key).Sublist
      ((new.take (h.newStart - 1).toNat ++ replacement ++ new.drop h.lastLine.toNat).map o.key) := by
  obtain ⟨bs, rfl, hcover, -⟩ := hunks_covers hhs
  obtain ⟨b, hb, rfl⟩ := List.mem_map.mp hh
  have hkeep := hcover.outside_sublist_replaced hb (replacement.map o.key)
  rw [List.drop_zero, outside_map] at hkeep
  have hfirst : (b.hunk.newStart - 1).toNat = b.newStart := by rw [Block.hunk_newFirst]; rfl
  have hlast : b.hunk.lastLine.toNat = b.newStop := by
    dsimp only [Block.hunk, Hunk.lastLine]
    omega
  rw [hfirst, hlast, List.append_assoc, List.map_append, List.map_append, List.map_take,
    List.map_drop]
  simpa [part] using hkeep

end WithoutContext

end Hunkwise.Diff

namespace Hunkwise.Converge

open Diff

variable {σ ε : Type} {t : Target σ ε} {o : Options} {limit : Option Nat} {comparison : Text}
  {before : List Text} {h : Hunk} {range : LineRange} {s : σ}

/-- A target whose calls rewrite the lines of their range and no others. -/
def Target.RewritesRange (t : Target σ ε) : Prop :=
  ∀ range s, ∃ replacement, t.lines (t.format range s).2 =
    (t.lines s).take (range.startLine - 1).toNat ++ replacement ++
      (t.lines s).drop range.stopLine.toNat

/-- A call that leaves the baseline alone: of the buffer lines that the diff pairs with a line of
the comparison text it covers none, and the lines of that text outside the hunks are still in the
buffer after it, in order. -/
def LeavesBaseline (t : Target σ ε) (o : Options) (comparison : Text) (c : Call σ) : Prop :=
  ∃ hs pairs, textHunks o comparison (Text.join (t.lines c.before)) = some hs ∧
    o.pairs (Text.lines comparison) (t.lines c.before) = some pairs ∧
    (∀ p ∈ pairs, ¬(c.range.startLine ≤ p.2 + 1 ∧ p.2 + 1 ≤ c.range.stopLine)) ∧
    ((outside hs 1 (Text.lines comparison)).map o.key).Sublist ((t.lines c.after).map o.key)

theorem hunkRange_lines (hr : hunkRange before h = some range) :
    range.startLine = h.newStart ∧ range.stopLine = h.lastLine := by
  obtain ⟨line, -, rfl⟩ := Option.map_eq_some_iff.mp hr
  exact ⟨rfl, rfl⟩

/-- The lines of the buffer are those that the hunks count, for the text of the buffer is not empty
if one of its hunks is to be formatted. -/
theorem lines_join_of_hunk {hs : List Hunk} (hu : Text.Unbroken before)
    (hhs : textHunks o comparison (Text.join before) = some hs) (hh : h ∈ hs)
    (hd : h.isDeletion = false) : Text.lines (Text.join before) = before :=
  (hunkRange_spans hu hhs hh hd).2.1

theorem leavesBaseline_kept (hc : o.context = 0) (hj : o.joinWithin = 0)
    (ht : t.RewritesRange) :
    t.recorded.Keeps o comparison fun s =>
      ∀ c ∈ s.2, Text.Unbroken (t.lines c.before) → LeavesBaseline t o comparison c := by
  rintro start ⟨s, log⟩ - hlog hsame hs hhs h hh hd range hr
  rw [Target.recorded_lines, Target.recorded_lines] at hsame
  rw [Target.recorded_format]
  intro c hc'
  rcases List.mem_append.mp hc' with hc' | hc'
  · exact hlog c hc'
  · rw [List.mem_singleton.mp hc']
    intro hu
    dsimp only at hu
    -- the hunks are those of the text at the start of the pass, which is the text at the call
    rw [Target.recorded_lines, ← hsame] at hhs
    have hlines := lines_join_of_hunk hu hhs hh hd
    obtain ⟨hstart, hstop⟩ := hunkRange_lines hr
    have hhunks : hunks o (Text.lines comparison) (t.lines s) = some hs := by
      rw [← hlines]; exact hhs
    obtain ⟨pairs, hpairs, hspare⟩ := hunks_spare_pairs hc hj hhunks
    obtain ⟨replacement, hafter⟩ := ht range s
    refine ⟨hs, pairs, hhs, hpairs, ?_, ?_⟩
    · rw [hstart, hstop]
      exact hspare h hh
    · dsimp only
      rw [hafter, hstart, hstop]
      exact hunks_keep_outside hhunks hh replacement

theorem unbroken_before_kept (hkeep : t.KeepsLines) :
    t.recorded.Keeps o comparison fun s =>
      Text.Unbroken (t.lines s.1) ∧ ∀ c ∈ s.2, Text.Unbroken (t.lines c.before) := by
  rintro start ⟨s, log⟩ - ⟨hs, hlog⟩ - hunks - h - - range -
  rw [Target.recorded_format]
  refine ⟨hkeep range s hs, ?_⟩
  intro c hc
  rcases List.mem_append.mp hc with hc | hc
  · exact hlog c hc
  · rw [List.mem_singleton.mp hc]
    exact hs

/-- Without context, a formatter that rewrites only the lines of its range rewrites nothing of the
baseline: it covers changed lines only, and the lines outside the hunks are still there after it. -/
theorem calls_leave_baseline (t : Target σ ε) (o : Options) (limit : Option Nat)
    (comparison : Text) (fuel : Nat) (s : σ) (hcontext : o.context = 0) (hjoin : o.joinWithin = 0)
    (ht : t.RewritesRange) :
    (∀ c ∈ runCalls t o limit comparison fuel s,
      Text.Unbroken (t.lines c.before) → LeavesBaseline t o comparison c) ∧
    (t.KeepsLines → Text.Unbroken (t.lines s) →
      ∀ c ∈ runCalls t o limit comparison fuel s, LeavesBaseline t o comparison c) := by
  have hcalls : ∀ c ∈ runCalls t o limit comparison fuel s,
      Text.Unbroken (t.lines c.before) → LeavesBaseline t o comparison c :=
    run_invariant (s := (s, [])) (leavesBaseline_kept hcontext hjoin ht)
      fun c hc => absurd hc List.not_mem_nil
  refine ⟨hcalls, fun hkeep hs c hc => hcalls c hc ?_⟩
  have hstart : Text.Unbroken (t.lines s) ∧
      ∀ c ∈ ([] : List (Call σ)), Text.Unbroken (t.lines c.before) :=
    ⟨hs, fun c hc => absurd hc List.not_mem_nil⟩
  exact (run_invariant (s := (s, [])) (unbroken_before_kept hkeep) hstart).2 c hc

def Target.replacing (ls : List Text) : Target (List Text) Empty where
  lines := id
  format range s :=
    (.ok (), s.take (range.startLine - 1).toNat ++ ls ++ s.drop range.stopLine.toNat)

theorem keepsLines_replacing {ls : List Text} (h : Text.Unbroken ls) :
    (Target.replacing ls).KeepsLines := by
  intro range s hs l hl
  rcases List.mem_append.mp hl with hl | hl
  · rcases List.mem_append.mp hl with hl | hl
    · exact hs l (List.mem_of_mem_take hl)
    · exact h l hl
  · exact hs l (List.mem_of_mem_drop hl)

/-- Two changed lines become one, which moves the changed line below them, and three lines of the
baseline stay between and around them. -/
theorem calls_leave_baseline_two_hunks :
    let t := Target.replacing ["n"]
    let calls := runCalls t {} none "a\nb\nc\nd\ne" 5 ["a", "x", "y", "c", "z", "e\r"]
    calls.map Call.range =
      [⟨(2, 0), (3, 0)⟩, ⟨(2, 0), (2, 0)⟩, ⟨(4, 0), (4, 0)⟩, ⟨(2, 0), (2, 0)⟩, ⟨(4, 0), (4, 0)⟩] ∧
      ∀ c ∈ calls, LeavesBaseline t {} "a\nb\nc\nd\ne" c := by
  intro t calls
  have ht : t.RewritesRange := fun _ _ => ⟨["n"], rfl⟩
  have hkeep : t.KeepsLines := keepsLines_replacing (by decide)
  have hs : Text.Unbroken (["a", "x", "y", "c", "z", "e\r"] : List Text) := by decide
  exact ⟨by decide +kernel,
    (calls_leave_baseline t {} none "a\nb\nc\nd\ne" 5 _ rfl rfl ht).2 hkeep hs⟩

end Hunkwise.Converge
