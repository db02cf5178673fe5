import Hunkwise.Diff.Slide
import Hunkwise.Proofs.Alignment

/-! Sliding keeps the cover. A block of lines on one side only may stand at several places of the
common stretch around it; each step up or down that the search takes leads from one such place to
another, so wherever the block comes to rest the blocks still cover all that differs. -/

namespace Hunkwise.Diff

section Fits

variable {α : Type} {xs ys : List α} {i j n len p : Nat}

/-- The lists agree on `n` elements from the places `i` and `j` on, but for `len` elements of the
second list that stand after the first `p` of them. -/
structure Fits (xs ys : List α) (i j n len p : Nat) : Prop where
  le : p ≤ n
  before : Agree xs ys i j p
  after : Agree xs ys (i + p) (j + p + len) (n - p)

theorem Fits.up (h : Fits xs ys i j n len (p + 1)) (he : ys[j + p]? = ys[j + p + len]?) :
    Fits xs ys i j n len p := by
  have hle := h.le
  refine ⟨by omega, h.before.mono (Nat.le_succ p), ?_⟩
  have hone : Agree xs ys (i + p) (j + p + len) 1 := by
    intro k hk
    obtain ⟨x, hx, hy⟩ := h.before p (Nat.lt_succ_self p)
    rw [show k = 0 by omega]
    exact ⟨x, hx, by rw [Nat.add_zero, ← he, hy]⟩
  have hrest := hone.append (n := n - (p + 1))
    (by rw [Nat.add_right_comm (j + p)]; exact h.after)
  rwa [show 1 + (n - (p + 1)) = n - p by omega] at hrest

theorem Fits.down (h : Fits xs ys i j n len p) (hp : p < n)
    (he : ys[j + p]? = ys[j + p + len]?) : Fits xs ys i j n len (p + 1) := by
  refine ⟨hp, h.before.append ?_, ?_⟩
  · intro k hk
    obtain ⟨x, hx, hy⟩ := h.after 0 (by omega)
    rw [show k = 0 by omega]
    exact ⟨x, hx, by rw [Nat.add_zero, he, ← Nat.add_zero (j + p + len), hy]⟩
  · rw [← Nat.add_assoc, ← Nat.add_assoc, Nat.add_right_comm (j + p)]
    exact h.after.sub (by omega)

end Fits

variable {xs ys : List Text} {i j n len p : Nat}

theorem climb_fits (h : Fits xs ys i j n len p) :
    ∃ q, climb ys.toArray j len (j + p) = j + q ∧ Fits xs ys i j n len q := by
  induction p with
  | zero =>
    refine ⟨0, ?_, h⟩
    cases j with
    | zero => rfl
    | succ j => simp [climb]
  | succ p ih =>
    rw [← Nat.add_assoc, climb]
    split
    · next hup => exact ih (h.up (by simpa using hup.2))
    · exact ⟨p + 1, rfl, h⟩

theorem descend_fits {s : Nat} (h : Fits xs ys i j n len p) (hs : s = j + p) :
    ∀ t ∈ descend ys.toArray (j + n + len) len s, ∃ q, t = j + q ∧ Fits xs ys i j n len q := by
  fun_induction descend ys.toArray (j + n + len) len s generalizing p with
  | case1 s hdown ih =>
    subst hs
    intro t ht
    rcases List.mem_cons.mp ht with rfl | ht
    · exact ⟨p, rfl, h⟩
    · exact ih (h.down (by omega) (by simpa using hdown.2)) (Nat.add_assoc ..) t ht
  | case2 s _ =>
    intro t ht
    exact ⟨p, (List.mem_singleton.mp ht).trans hs, h⟩

theorem bestPlace_mem (lines : Array Text) (len start : Nat) (places : List Nat) :
    bestPlace lines len start places ∈ start :: places := by
  refine List.foldlRecOn (motive := fun best => best ∈ start :: places) _ _ List.mem_cons_self ?_
  intro best hbest s hs
  split
  · exact List.mem_cons_of_mem _ hs
  · exact hbest

theorem restingPlace_fits (h : Fits xs ys i j n len p) :
    ∃ q, restingPlace ys.toArray j (j + n + len) len (j + p) = j + q ∧ Fits xs ys i j n len q := by
  obtain ⟨top, htop, hfits⟩ := climb_fits h
  unfold restingPlace
  rw [htop]
  rcases List.mem_cons.mp (bestPlace_mem ys.toArray len (j + top)
    (descend ys.toArray (j + n + len) len (j + top))) with hbest | hbest
  · exact ⟨top, hbest, hfits⟩
  · exact descend_fits hfits rfl _ hbest

/-- An insertion slides to a place where it fits, alike on both sides. -/
theorem slideBlock_insertion (h : Fits xs ys i j n len p) :
    ∃ q, slideBlock xs.toArray ys.toArray (i, j) (i + n, j + n + len)
        ⟨i + p, i + p, j + p, j + p + len⟩ = ⟨i + q, i + q, j + q, j + q + len⟩ ∧
      Fits xs ys i j n len q := by
  obtain ⟨q, hq, hfits⟩ := restingPlace_fits h
  refine ⟨q, ?_, hfits⟩
  rw [slideBlock, if_pos rfl]
  simp only [Nat.add_sub_cancel_left, hq, Block.move, Block.mk.injEq, true_and]
  omega

theorem slideBlock_deletion (h : Fits ys xs j i n len p) (hlen : 0 < len) :
    ∃ q, slideBlock xs.toArray ys.toArray (i, j) (i + n + len, j + n)
        ⟨i + p, i + p + len, j + p, j + p⟩ = ⟨i + q, i + q + len, j + q, j + q⟩ ∧
      Fits ys xs j i n len q := by
  obtain ⟨q, hq, hfits⟩ := restingPlace_fits h
  refine ⟨q, ?_, hfits⟩
  rw [slideBlock, if_neg (by dsimp only; omega), if_pos rfl]
  simp only [Nat.add_sub_cancel_left, hq, Block.move, Block.mk.injEq, true_and]
  omega

/-- One block slides within the stretch between its neighbours: what lies before and after it stays
the same on both sides. -/
theorem slideBlock_covers {b : Block} {bs : List Block} (h : Covers xs ys i j (b :: bs)) :
    Covers xs ys i j
      (slideBlock xs.toArray ys.toArray (i, j) (nextPlace xs.length ys.length bs) b :: bs) := by
  obtain ⟨oldStart, oldStop, newStart, newStop⟩ := b
  obtain ⟨⟨p, hp, hbefore⟩, hold, hnew, hrest⟩ := h
  dsimp only at hp hold hnew hrest
  obtain ⟨rfl, rfl⟩ := Prod.mk.inj hp
  obtain ⟨dels, rfl⟩ := Nat.exists_eq_add_of_le hold
  obtain ⟨adds, rfl⟩ := Nat.exists_eq_add_of_le hnew
  obtain ⟨m, hm, hafter⟩ := hrest.gap
  by_cases hdels : dels = 0
  · subst hdels
    have hend : nextPlace xs.length ys.length bs = (i + (p + m), j + (p + m) + adds) := by
      rw [hm, Prod.mk.injEq]; omega
    obtain ⟨q, hq, hfits⟩ := slideBlock_insertion (n := p + m)
      ⟨by omega, hbefore, by rw [Nat.add_sub_cancel_left]; exact hafter⟩
    rw [hend, Nat.add_zero, hq]
    refine ⟨⟨q, rfl, hfits.before⟩, Nat.le_refl _, Nat.le_add_right .., hrest.rebase ?_ hfits.after⟩
    have := hfits.le
    rw [hend, Prod.mk.injEq]; dsimp only; omega
  by_cases hadds : adds = 0
  · subst hadds
    have hend : nextPlace xs.length ys.length bs = (i + (p + m) + dels, j + (p + m)) := by
      rw [hm, Prod.mk.injEq]; omega
    obtain ⟨q, hq, hfits⟩ := slideBlock_deletion (n := p + m)
      ⟨by omega, hbefore.symm, by rw [Nat.add_sub_cancel_left]; exact hafter.symm⟩
      (Nat.pos_of_ne_zero hdels)
    rw [hend, Nat.add_zero, hq]
    refine ⟨⟨q, rfl, hfits.before.symm⟩, Nat.le_add_right .., Nat.le_refl _,
      hrest.rebase ?_ hfits.after.symm⟩
    have := hfits.le
    rw [hend, Prod.mk.injEq]; dsimp only; omega
  · -- a block with lines on both sides stays where it is
    rw [slideBlock, if_neg (by dsimp only; omega), if_neg (by dsimp only; omega)]
    exact ⟨⟨p, rfl, hbefore⟩, hold, hnew, hrest⟩

theorem slideBlocks_cons (old new : Array Text) (before : Nat × Nat) (b : Block) (bs : List Block) :
    slideBlocks old new before (b :: bs) =
      let moved := slideBlock old new before (nextPlace old.size new.size bs) b
      moved :: slideBlocks old new (moved.oldStop, moved.newStop) bs := by
  cases bs <;> rfl

/-- Blocks that cover all that differs still do so after sliding. -/
theorem slideBlocks_covers {bs : List Block} (h : Covers xs ys i j bs) :
    Covers xs ys i j (slideBlocks xs.toArray ys.toArray (i, j) bs) := by
  induction bs generalizing i j with
  | nil => exact h
  | cons b bs ih =>
    rw [slideBlocks_cons, List.size_toArray, List.size_toArray]
    obtain ⟨hgap, hold, hnew, hrest⟩ := slideBlock_covers h
    exact ⟨hgap, hold, hnew, ih hrest⟩

end Hunkwise.Diff
