import Hunkwise.Proofs.BaselineLines
import Mathlib.Algebra.BigOperators.Group.List.Basic
import Mathlib.Algebra.Group.Prod
import Mathlib.Algebra.Ring.Int.Defs
import Mathlib.Data.Nat.Cast.Basic
import Mathlib.Data.Prod.Lex

/-! Where blocks come to rest. Two places of a block in its window leave the same other lines exactly
if, between the two, every line is the same as the one a block's length further down. So the search,
which compares the line that enters the block with the one that leaves it and stops where they differ,
meets every such place, and of them it takes the best. As blocks keep their size, sliding changes
neither how many old lines are in hunks nor how many new ones. -/

namespace Hunkwise.Diff

variable {lines : List Text} {low high len p q s t : Nat}

section Places

/-- Every line from `p` up to `s` is the same as the one `len` lines further down. -/
def Repeats (lines : List Text) (len p s : Nat) : Prop :=
  ∀ k, p ≤ k → k < s → lines[k]? = lines[k + len]?

theorem repeats_of_le (h : s ≤ p) : Repeats lines len p s := fun k hp hs => by omega

theorem Repeats.from (h : Repeats lines len p s) (hpq : p ≤ q) : Repeats lines len q s :=
  fun k hk hs => h k (hpq.trans hk) hs

theorem Repeats.upTo (h : Repeats lines len p s) (hqs : q ≤ s) : Repeats lines len p q :=
  fun k hk hq => h k hk (hq.trans_le hqs)

theorem Repeats.trans (h : Repeats lines len p q) (h' : Repeats lines len q s) :
    Repeats lines len p s := by
  intro k hp hs
  rcases Nat.lt_or_ge k q with hk | hk
  · exact h k hp hk
  · exact h' k hk hs

theorem repeats_succ (hps : p ≤ s) : Repeats lines len p (s + 1) ↔
    Repeats lines len p s ∧ lines[s]? = lines[s + len]? := by
  refine ⟨fun h => ⟨h.upTo (Nat.le_succ s), h s hps (Nat.lt_succ_self s)⟩, fun h k hp hs => ?_⟩
  rcases Nat.lt_succ_iff_lt_or_eq.mp hs with hk | rfl
  · exact h.1 k hp hk
  · exact h.2

theorem part_eq_iff : part lines p s = part lines (p + len) (s + len) ↔ Repeats lines len p s := by
  simp only [part, List.ext_getElem?_iff, List.getElem?_take, List.getElem?_drop,
    Nat.add_sub_add_right]
  constructor
  · intro h k hp hs
    have := h (k - p)
    rwa [if_pos (by omega), if_pos (by omega), Nat.add_right_comm, Nat.add_sub_cancel' hp] at this
  · intro h k
    split
    · rw [Nat.add_right_comm, h (p + k) (by omega) (by omega)]
    · rfl

/-- The lines from `low` up to `high` but for `len` lines at the place `p`. -/
def windowWithout (lines : List Text) (low high len p : Nat) : List Text :=
  part lines low p ++ part lines (p + len) high

theorem windowWithout_eq_iff (hlow : low ≤ p) (hps : p ≤ s) (hhigh : s + len ≤ high) :
    windowWithout lines low high len p = windowWithout lines low high len s ↔
      Repeats lines len p s := by
  rw [windowWithout, windowWithout, ← part_append_part hlow hps,
    ← part_append_part (Nat.add_le_add_right hps len) hhigh, List.append_assoc,
    List.append_cancel_left_eq, List.append_cancel_right_eq, eq_comm, part_eq_iff]

/-- The block of `len` lines at `start` may as well stand at `p`: there too it lies between `low` and
`high`, and its removal leaves the same lines. -/
structure Equivalent (lines : List Text) (low high len start p : Nat) : Prop where
  low_le : low ≤ p
  le_high : p + len ≤ high
  same : windowWithout lines low high len p = windowWithout lines low high len start

theorem equivalent_iff (hlow : low ≤ s) (hhigh : s + len ≤ high) :
    Equivalent lines low high len s p ↔
      low ≤ p ∧ p + len ≤ high ∧ Repeats lines len p s ∧ Repeats lines len s p := by
  have hsame (hlow' : low ≤ p) (hhigh' : p + len ≤ high) :
      windowWithout lines low high len p = windowWithout lines low high len s ↔
        Repeats lines len p s ∧ Repeats lines len s p := by
    rcases Nat.le_total p s with hps | hsp
    · rw [windowWithout_eq_iff hlow' hps hhigh, and_iff_left (repeats_of_le hps)]
    · rw [eq_comm, windowWithout_eq_iff hlow hsp hhigh', and_iff_right (repeats_of_le hsp)]
  exact ⟨fun h => ⟨h.low_le, h.le_high, (hsame h.low_le h.le_high).mp h.same⟩,
    fun h => ⟨h.1, h.2.1, (hsame h.1 h.2.1).mpr h.2.2⟩⟩

end Places

section Search

theorem climb_le : climb lines.toArray low len s ≤ s := by
  induction s with
  | zero => exact Nat.le_refl 0
  | succ s ih =>
    unfold climb
    split
    · exact ih.trans (Nat.le_succ s)
    · exact Nat.le_refl _

theorem low_le_climb (h : low ≤ s) : low ≤ climb lines.toArray low len s := by
  induction s with
  | zero => exact h
  | succ s ih =>
    unfold climb
    split
    · next hup => exact ih (Nat.le_of_lt_succ hup.1)
    · exact h

theorem climb_le_iff (hlow : low ≤ p) (hps : p ≤ s) :
    climb lines.toArray low len s ≤ p ↔ Repeats lines len p s := by
  induction s with
  | zero => exact iff_of_true (Nat.zero_le p) (repeats_of_le (Nat.zero_le p))
  | succ s ih =>
    rcases Nat.lt_succ_iff_lt_or_eq.mp (Nat.lt_succ_of_le hps) with hps | rfl
    · rw [repeats_succ (Nat.le_of_lt_succ hps), climb]
      split
      · next hup =>
        rw [ih (Nat.le_of_lt_succ hps), and_iff_left (by simpa using hup.2)]
      · next hstop =>
        refine iff_of_false (by omega) fun h => hstop ⟨by omega, ?_⟩
        simpa using h.2
    · exact iff_of_true climb_le (repeats_of_le (Nat.le_refl _))

theorem mem_descend (h : s + len ≤ high) : t ∈ descend lines.toArray high len s ↔
    s ≤ t ∧ t + len ≤ high ∧ Repeats lines len s t := by
  fun_induction descend lines.toArray high len s with
  | case1 s hdown ih =>
    rw [List.mem_cons, ih (by omega)]
    have hsame : lines[s]? = lines[s + len]? := by simpa using hdown.2
    have hone : Repeats lines len s (s + 1) :=
      (repeats_succ (Nat.le_refl s)).mpr ⟨repeats_of_le (Nat.le_refl s), hsame⟩
    constructor
    · rintro (rfl | ⟨hst, hhigh, hrest⟩)
      · exact ⟨Nat.le_refl _, h, repeats_of_le (Nat.le_refl _)⟩
      · exact ⟨Nat.le_of_succ_le hst, hhigh, hone.trans hrest⟩
    · rintro ⟨hst, hhigh, hrest⟩
      rcases Nat.eq_or_lt_of_le hst with rfl | hlt
      · exact .inl rfl
      · exact .inr ⟨hlt, hhigh, hrest.from (Nat.le_succ s)⟩
  | case2 s hstop =>
    rw [List.mem_singleton]
    constructor
    · rintro rfl
      exact ⟨Nat.le_refl _, h, repeats_of_le (Nat.le_refl _)⟩
    · rintro ⟨hst, hhigh, hrest⟩
      by_contra hne
      refine hstop ⟨by omega, ?_⟩
      simpa using hrest s (Nat.le_refl s) (by omega)

theorem descend_sorted (h : s + len ≤ high) :
    (descend lines.toArray high len s).Pairwise (· < ·) := by
  fun_induction descend lines.toArray high len s with
  | case1 s hdown ih =>
    have hnext : s + 1 + len ≤ high := by omega
    exact List.pairwise_cons.mpr ⟨fun t ht => ((mem_descend hnext).mp ht).1, ih hnext⟩
  | case2 s _ => exact List.pairwise_singleton _ s

/-- The search from the highest place down meets a place exactly if the block may stand there. -/
theorem mem_places (hlow : low ≤ s) (hhigh : s + len ≤ high) :
    t ∈ descend lines.toArray high len (climb lines.toArray low len s) ↔
      Equivalent lines low high len s t := by
  have htop : climb lines.toArray low len s ≤ s := climb_le
  have htopLow : low ≤ climb lines.toArray low len s := low_le_climb hlow
  have hclimbed := (climb_le_iff htopLow htop).mp (Nat.le_refl _)
  rw [mem_descend (by omega), equivalent_iff hlow hhigh]
  constructor
  · rintro ⟨hle, hhigh', hrest⟩
    exact ⟨htopLow.trans hle, hhigh', hclimbed.from hle, hrest.from htop⟩
  · rintro ⟨hlow', hhigh', habove, hbelow⟩
    have hle : climb lines.toArray low len s ≤ t := by
      rcases Nat.le_total t s with hts | hst
      · exact (climb_le_iff hlow' hts).mpr habove
      · exact htop.trans hst
    exact ⟨hle, hhigh', hclimbed.trans hbelow⟩

end Search

section Best

/-- How good a place for `len` lines is, the smaller the better: what follows counts first, then the
indentation of the first line that is not blank, then how far down the place lies. -/
def score (lines : List Text) (len p : Nat) : ℕ ×ₗ ℕ ×ₗ ℤ :=
  let following := if ∀ line ∈ lines[p + len]?, line.isBlankLine = true then 0 else 1
  let first := (part lines p (p + len)).find? fun line => !line.isBlankLine
  toLex (following, toLex (first.elim 0 indent, -(p : ℤ)))

theorem score_eq (lines : List Text) (len p : Nat) : score lines len p =
    toLex ((readability lines.toArray len p).1,
      toLex ((readability lines.toArray len p).2, -(p : ℤ))) := by
  have hfirst (o : Option Text) : indent (o.getD "") = o.elim 0 indent := by cases o <;> rfl
  have hpart : (lines.toArray.extract p (p + len)).toList = part lines p (p + len) := by
    rw [List.extract_toArray, List.extract_eq_take_drop]
    rfl
  rw [readability, hfirst, hpart, score, List.getElem?_toArray]
  cases lines[p + len]? with
  | none => simp
  | some line => simp

theorem score_injective : Function.Injective (score lines len) := by
  intro p q h
  have hplace := congrArg (fun x => (ofLex (ofLex x).2).2) h
  simp only [score, ofLex_toLex] at hplace
  omega

/-- Further down, a place is not worse exactly if its score is not larger. -/
theorem notWorse_iff (h : p ≤ q) :
    notWorse (readability lines.toArray len q) (readability lines.toArray len p) = true ↔
      score lines len q ≤ score lines len p := by
  rw [score_eq, score_eq, Prod.Lex.toLex_le_toLex, Prod.Lex.toLex_le_toLex]
  simp only [notWorse, Bool.or_eq_true, Bool.and_eq_true, decide_eq_true_eq]
  omega

theorem score_bestPlace_le {places : List Nat} (hsorted : places.Pairwise (· < ·))
    (hstart : ∀ t ∈ places, s ≤ t) :
    ∀ t ∈ s :: places, score lines len (bestPlace lines.toArray len s places) ≤ score lines len t := by
  induction places generalizing s with
  | nil =>
    intro t ht
    rw [List.mem_singleton.mp ht]
    exact le_rfl
  | cons a places ih =>
    obtain ⟨hhead, htail⟩ := List.pairwise_cons.mp hsorted
    have hsa := hstart a List.mem_cons_self
    intro t ht
    rw [bestPlace, List.foldl_cons]
    split
    · next hbetter =>
      have hbest := ih htail (fun t ht => (hhead t ht).le)
      rcases List.mem_cons.mp ht with rfl | ht
      · exact (hbest a List.mem_cons_self).trans ((notWorse_iff hsa).mp hbetter)
      · exact hbest t ht
    · next hworse =>
      have hbest := ih htail (fun t ht => hsa.trans (hhead t ht).le)
      rcases List.mem_cons.mp ht with rfl | ht
      · exact hbest t List.mem_cons_self
      · rcases List.mem_cons.mp ht with rfl | ht
        · exact (hbest s List.mem_cons_self).trans (le_of_not_ge (mt (notWorse_iff hsa).mpr hworse))
        · exact hbest t (List.mem_cons_of_mem _ ht)

/-- Of all places where `len` lines from `start` may as well stand between `low` and `high`, `p` is the
one with the least score. -/
structure RestsAt (lines : List Text) (low high len start p : Nat) : Prop where
  equivalent : Equivalent lines low high len start p
  least : ∀ q, Equivalent lines low high len start q → q ≠ p → score lines len p < score lines len q

theorem restsAt_restingPlace (hlow : low ≤ s) (hhigh : s + len ≤ high) :
    RestsAt lines low high len s (restingPlace lines.toArray low high len s) := by
  have htop : climb lines.toArray low len s + len ≤ high :=
    (Nat.add_le_add_right climb_le len).trans hhigh
  have hfirst : climb lines.toArray low len s ∈
      descend lines.toArray high len (climb lines.toArray low len s) :=
    (mem_descend htop).mpr ⟨Nat.le_refl _, htop, repeats_of_le (Nat.le_refl _)⟩
  have hsorted : (descend lines.toArray high len (climb lines.toArray low len s)).Pairwise (· < ·) :=
    descend_sorted htop
  have hbest : ∀ t ∈ _, score lines len (restingPlace lines.toArray low high len s) ≤ _ :=
    score_bestPlace_le hsorted fun t ht => ((mem_descend htop).mp ht).1
  constructor
  · refine (mem_places hlow hhigh).mp ?_
    rcases List.mem_cons.mp (bestPlace_mem ..) with hplace | hplace
    · rw [restingPlace, hplace]
      exact hfirst
    · exact hplace
  · intro q hq hne
    refine lt_of_le_of_ne (hbest q (List.mem_cons_of_mem _ ((mem_places hlow hhigh).mpr hq))) ?_
    exact fun h => hne (score_injective h).symm

end Best

section Blocks

variable {old new : List Text} {i j : Nat} {before after : Nat × Nat} {b m : Block} {bs : List Block}

/-- What sliding makes of a block `b` between the end of the block above it and the start of the one
below: both sides move alike, a block with lines on both sides stays, and lines that stand on one side
only come to rest at the best place there. -/
structure Slides (old new : List Text) (before after : Nat × Nat) (b m : Block) : Prop where
  alike : ∃ d : ℤ, (m.oldStart : ℤ) = b.oldStart + d ∧ (m.oldStop : ℤ) = b.oldStop + d ∧
    (m.newStart : ℤ) = b.newStart + d ∧ (m.newStop : ℤ) = b.newStop + d
  twoSided : b.oldStart < b.oldStop → b.newStart < b.newStop → m = b
  insertion : b.oldStart = b.oldStop →
    RestsAt new before.2 after.2 (b.newStop - b.newStart) b.newStart m.newStart
  deletion : b.oldStart < b.oldStop → b.newStart = b.newStop →
    RestsAt old before.1 after.1 (b.oldStop - b.oldStart) b.oldStart m.oldStart

theorem Block.move_alike {start place : Nat} (hold : start ≤ b.oldStart + place)
    (hnew : start ≤ b.newStart + place) (hold' : b.oldStart ≤ b.oldStop)
    (hnew' : b.newStart ≤ b.newStop) :
    ∃ d : ℤ, ((b.move start place).oldStart : ℤ) = b.oldStart + d ∧
      ((b.move start place).oldStop : ℤ) = b.oldStop + d ∧
      ((b.move start place).newStart : ℤ) = b.newStart + d ∧
      ((b.move start place).newStop : ℤ) = b.newStop + d := by
  refine ⟨(place : ℤ) - start, ?_⟩
  dsimp only [Block.move]
  omega

def endPlace (i j : Nat) : List Block → Nat × Nat
  | [] => (i, j)
  | b :: bs => endPlace b.oldStop b.newStop bs

theorem slideBlock_slides (h : Covers old new i j (b :: bs)) :
    Slides old new (i, j) (nextPlace old.length new.length bs) b
      (slideBlock old.toArray new.toArray (i, j) (nextPlace old.length new.length bs) b) := by
  obtain ⟨⟨n, hn, -⟩, hold, hnew, hrest⟩ := h
  obtain ⟨hbold, hbnew⟩ := Prod.mk.inj hn
  obtain ⟨k, hk, -⟩ := hrest.gap
  rw [hk]
  unfold slideBlock
  dsimp only
  split
  · next hinsertion =>
    have hrests : RestsAt new j (b.newStop + k) (b.newStop - b.newStart) b.newStart
        (restingPlace new.toArray j (b.newStop + k) (b.newStop - b.newStart) b.newStart) :=
      restsAt_restingPlace (by omega) (by omega)
    have hlow := hrests.equivalent.low_le
    refine ⟨Block.move_alike (by omega) (by omega) hold hnew, fun h => by omega, fun _ => ?_,
      fun h => by omega⟩
    rwa [Block.move, Nat.add_sub_cancel_left]
  · next hlines =>
    split
    · next hdeletion =>
      have hrests : RestsAt old i (b.oldStop + k) (b.oldStop - b.oldStart) b.oldStart
          (restingPlace old.toArray i (b.oldStop + k) (b.oldStop - b.oldStart) b.oldStart) :=
        restsAt_restingPlace (by omega) (by omega)
      have hlow := hrests.equivalent.low_le
      refine ⟨Block.move_alike (by omega) (by omega) hold hnew, fun _ h => by omega,
        fun h => absurd h hlines, fun _ _ => ?_⟩
      rwa [Block.move, Nat.add_sub_cancel_left]
    · next hboth =>
      exact ⟨⟨0, by simp⟩, fun _ _ => rfl, fun h => absurd h hlines, fun _ h => absurd h hboth⟩

theorem length_slideBlocks (old new : Array Text) (before : Nat × Nat) (bs : List Block) :
    (slideBlocks old new before bs).length = bs.length := by
  induction bs generalizing before with
  | nil => rfl
  | cons b bs ih => rw [slideBlocks_cons, List.length_cons, List.length_cons, ih]

/-- Every block slides between the block above it, which was moved before, and the one below it, which
was not. -/
theorem slideBlocks_slides (h : Covers old new i j bs) {k : Nat} (hb : bs[k]? = some b)
    (hm : (slideBlocks old.toArray new.toArray (i, j) bs)[k]? = some m) :
    Slides old new (endPlace i j ((slideBlocks old.toArray new.toArray (i, j) bs).take k))
      (nextPlace old.length new.length (bs.drop (k + 1))) b m := by
  induction bs generalizing i j k with
  | nil => simp at hb
  | cons c bs ih =>
    rw [slideBlocks_cons, List.size_toArray, List.size_toArray] at hm ⊢
    obtain ⟨-, -, -, hrest⟩ := slideBlock_covers h
    cases k with
    | zero =>
      obtain rfl : c = b := by simpa using hb
      obtain rfl := Option.some.inj hm
      exact slideBlock_slides h
    | succ k => exact ih hrest hb hm

end Blocks

section Totals

variable {o : Options} {old new : List Text} {i j : Nat} {b m : Block} {bs : List Block}

def Block.size (b : Block) : Nat × Nat := (b.oldStop - b.oldStart, b.newStop - b.newStart)

def totals (hs : List Hunk) : Int × Int := ((hs.map Hunk.oldCount).sum, (hs.map Hunk.newCount).sum)

theorem Slides.size_eq {before after : Nat × Nat} (h : Slides old new before after b m) :
    m.size = b.size := by
  obtain ⟨d, hd⟩ := h.alike
  rw [Block.size, Block.size, Prod.mk.injEq]
  omega

theorem map_size_slideBlocks (h : Covers old new i j bs) :
    (slideBlocks old.toArray new.toArray (i, j) bs).map Block.size = bs.map Block.size := by
  refine List.ext_getElem (by simp [length_slideBlocks]) fun k hk hk' => ?_
  rw [List.getElem_map, List.getElem_map]
  exact (slideBlocks_slides h (List.getElem?_eq_getElem (by simpa using hk'))
    (List.getElem?_eq_getElem (by simpa using hk))).size_eq

/-- Joining blocks that touch adds no lines. -/
theorem sum_size_joinBlocks (h : Covers old new i j bs) :
    ((joinBlocks 0 bs).map Block.size).sum = (bs.map Block.size).sum := by
  induction bs generalizing i j with
  | nil => rfl
  | cons b bs ih =>
    obtain ⟨-, hold, hnew, hrest⟩ := h
    have hjoined := joinBlocks_covers (d := 0) hrest
    rw [List.map_cons, List.sum_cons, ← ih hrest, joinBlocks]
    cases hbs : joinBlocks 0 bs with
    | nil => rfl
    | cons next rest =>
      rw [hbs] at hjoined
      dsimp only
      split
      · obtain ⟨⟨n, hn, -⟩, hold', hnew', -⟩ := hjoined
        obtain ⟨hx, hy⟩ := Prod.mk.inj hn
        rw [List.map_cons, List.map_cons, List.sum_cons, List.sum_cons, ← add_assoc]
        congr 1
        simp only [Block.size, Prod.mk_add_mk, Prod.mk.injEq]
        omega
      · rfl

theorem totals_toHunk {m n : Nat} (h : ∀ b ∈ bs, b.oldStart ≤ b.oldStop ∧ b.oldStop ≤ m ∧
    b.newStart ≤ b.newStop ∧ b.newStop ≤ n) :
    totals (bs.map (Block.toHunk 0 m n)) =
      (((bs.map Block.size).sum.1 : ℤ), ((bs.map Block.size).sum.2 : ℤ)) := by
  induction bs with
  | nil => rfl
  | cons b bs ih =>
    obtain ⟨hb, hbs⟩ := List.forall_mem_cons.mp h
    have hrest := Prod.mk.inj (ih hbs)
    simp only [List.map_cons, totals, List.sum_cons, Prod.mk.injEq, Prod.fst_add, Prod.snd_add]
    rw [hrest.1, hrest.2]
    simp only [Block.toHunk, Block.size]
    omega

/-- Without context the hunks have the lines that the alignment leaves unpaired, at whatever place
these come to rest. -/
theorem totals_hunks (hcontext : o.context = 0) (hjoin : o.joinWithin = 0) :
    (hunks o old new).map totals = (o.align (old.map o.key) (new.map o.key)).map fun pairs =>
      let sizes := ((gaps old.length new.length 0 0 pairs).map Block.size).sum
      ((sizes.1 : ℤ), (sizes.2 : ℤ)) := by
  unfold hunks Options.blocks
  rw [Option.map_map, Option.map_map, List.length_map, List.length_map, hcontext, hjoin]
  refine Option.map_congr fun pairs hpairs => ?_
  have hgaps := covers_gaps (Options.align_aligned hpairs) (Nat.zero_le _) (Nat.zero_le _)
    fun _ _ => ⟨Nat.zero_le _, Nat.zero_le _⟩
  rw [List.length_map, List.length_map] at hgaps
  have hcover {bs : List Block} (h : Covers (old.map o.key) (new.map o.key) 0 0 bs) :
      totals ((joinBlocks 0 bs).map (Block.toHunk 0 old.length new.length)) =
        (((bs.map Block.size).sum.1 : ℤ), ((bs.map Block.size).sum.2 : ℤ)) := by
    rw [totals_toHunk, sum_size_joinBlocks h]
    intro b hb
    have := (joinBlocks_covers h).bounds b hb
    rw [List.length_map, List.length_map] at this
    omega
  dsimp only [Function.comp]
  split
  · rw [hcover (slideBlocks_covers hgaps), map_size_slideBlocks hgaps]
  · exact hcover hgaps

/-- Sliding takes each block to the best of all places where it may stand, and changes neither the
number of old lines in hunks without context nor that of the new ones. -/
theorem blocks_slide_to_best_places :
    (∀ {old new : List Text} {bs : List Block}, Covers old new 0 0 bs →
      (slideBlocks old.toArray new.toArray (0, 0) bs).length = bs.length ∧
      ∀ k b m, bs[k]? = some b → (slideBlocks old.toArray new.toArray (0, 0) bs)[k]? = some m →
        Slides old new (endPlace 0 0 ((slideBlocks old.toArray new.toArray (0, 0) bs).take k))
          (nextPlace old.length new.length (bs.drop (k + 1))) b m) ∧
    ∀ {o : Options} {old new : List Text}, o.context = 0 → o.joinWithin = 0 →
      (hunks { o with slide := true } old new).map totals =
        (hunks { o with slide := false } old new).map totals := by
  refine ⟨fun h => ⟨length_slideBlocks .., fun k b m hb hm => slideBlocks_slides h hb hm⟩, ?_⟩
  intro o old new hcontext hjoin
  exact (totals_hunks (o := { o with slide := true }) hcontext hjoin).trans
    (totals_hunks (o := { o with slide := false }) hcontext hjoin).symm

/-- An insertion above a changed line slides up to the blank line that it was found after. -/
theorem insertion_slides_to_blank_line :
    let old : List Text := ["", "b", "c"]
    let new : List Text := ["", "x", "", "b", "C"]
    let bs : List Block := [⟨1, 1, 1, 3⟩, ⟨2, 3, 4, 5⟩]
    Covers old new 0 0 bs ∧
      slideBlocks old.toArray new.toArray (0, 0) bs = [⟨0, 0, 0, 2⟩, ⟨2, 3, 4, 5⟩] ∧
      Slides old new (0, 0) (2, 4) ⟨1, 1, 1, 3⟩ ⟨0, 0, 0, 2⟩ ∧
      Slides old new (0, 2) (3, 5) ⟨2, 3, 4, 5⟩ ⟨2, 3, 4, 5⟩ ∧
      (hunks { slide := true } old new).map totals = (hunks { slide := false } old new).map totals := by
  intro old new bs
  have halign : ({} : Options).align old new = some [(0, 0), (1, 3)] := by decide +kernel
  have hcover : Covers old new 0 0 bs :=
    covers_gaps (Options.align_aligned halign) (Nat.zero_le _) (Nat.zero_le _)
      fun _ _ => ⟨Nat.zero_le _, Nat.zero_le _⟩
  have hslid : slideBlocks old.toArray new.toArray (0, 0) bs = [⟨0, 0, 0, 2⟩, ⟨2, 3, 4, 5⟩] := by
    decide +kernel
  obtain ⟨-, hslides⟩ := blocks_slide_to_best_places.1 hcover
  rw [hslid] at hslides
  exact ⟨hcover, hslid, hslides 0 _ _ rfl rfl, hslides 1 _ _ rfl rfl,
    blocks_slide_to_best_places.2 (o := {}) rfl rfl⟩

end Totals

end Hunkwise.Diff
