import Hunkwise.Proofs.HunkCover
import Mathlib.Data.List.SplitBy

/-! Context in hunks. What lies within the context of a hunk and the distance at which hunks are joined
does not depend on how the texts are compared: the hunks with context are the ones without, taken
together in groups where few lines lie between them, and widened. So with more context hunks only grow. -/

namespace Hunkwise.Diff

section Joining

variable {d d' : Nat} {b next : Block} {bs : List Block}

def Block.upTo (b last : Block) : Block := ⟨b.oldStart, last.oldStop, b.newStart, last.newStop⟩

/-- Puts a block above others, joined to the first of them if at most `d` old lines lie between. -/
def attach (d : Nat) (b : Block) : List Block → List Block
  | [] => [b]
  | next :: rest => if next.oldStart - b.oldStop ≤ d then b.upTo next :: rest else b :: next :: rest

theorem joinBlocks_cons (d : Nat) (b : Block) (bs : List Block) :
    joinBlocks d (b :: bs) = attach d b (joinBlocks d bs) := by
  rw [joinBlocks]
  cases joinBlocks d bs <;> rfl

theorem attach_upTo (h : next.oldStart - b.oldStop ≤ d) (bs : List Block) :
    attach d (b.upTo next) bs = attach d b (attach d next bs) := by
  cases bs with
  | nil => exact (if_pos h).symm
  | cons last rest =>
    by_cases hlast : last.oldStart - next.oldStop ≤ d
    · rw [attach, attach, if_pos hlast, if_pos (show last.oldStart - (b.upTo next).oldStop ≤ d from hlast)]
      exact (if_pos h).symm
    · rw [attach, attach, if_neg hlast,
        if_neg (show ¬ last.oldStart - (b.upTo next).oldStop ≤ d from hlast)]
      exact (if_pos h).symm

theorem joinBlocks_attach (h : d ≤ d') (b : Block) (bs : List Block) :
    joinBlocks d' (attach d b bs) = attach d' b (joinBlocks d' bs) := by
  cases bs with
  | nil => rfl
  | cons next rest =>
    rw [attach]
    split
    · next hnear =>
      rw [joinBlocks_cons, joinBlocks_cons, attach_upTo (hnear.trans h)]
    · exact joinBlocks_cons d' b (next :: rest)

/-- Blocks that are joined further do not show that some of them were joined before. -/
theorem joinBlocks_joinBlocks (h : d ≤ d') (bs : List Block) :
    joinBlocks d' (joinBlocks d bs) = joinBlocks d' bs := by
  induction bs with
  | nil => rfl
  | cons b bs ih => rw [joinBlocks_cons, joinBlocks_attach h, ih, joinBlocks_cons]

end Joining

section Reach

variable {α : Type} {xs ys : List α} {i j c d : Nat} {bs : List Block}

/-- The new line `line` lies in the block or at most `c` lines from it. -/
def Block.Near (c line : Nat) (b : Block) : Prop := b.newStart ≤ line + c ∧ line < b.newStop + c

def Block.Inside (a b : Block) : Prop :=
  (b.oldStart ≤ a.oldStart ∧ a.oldStop ≤ b.oldStop) ∧ b.newStart ≤ a.newStart ∧ a.newStop ≤ b.newStop

/-- Between two blocks that are joined, every line is near to one of them. -/
theorem near_joinBlocks_iff (h : Covers xs ys i j bs) {line : Nat} :
    (∃ b ∈ joinBlocks (2 * c) bs, b.Near c line) ↔ ∃ b ∈ bs, b.Near c line := by
  induction bs generalizing i j with
  | nil => exact Iff.rfl
  | cons b bs ih =>
    obtain ⟨-, hold, hnew, hrest⟩ := h
    have hjoined := joinBlocks_covers (d := 2 * c) hrest
    rw [joinBlocks_cons, List.exists_mem_cons_iff, ← ih hrest]
    cases hbs : joinBlocks (2 * c) bs with
    | nil => simp [attach]
    | cons next rest =>
      rw [hbs] at hjoined
      obtain ⟨⟨n, hn, -⟩, hold', hnew', -⟩ := hjoined
      obtain ⟨hx, hy⟩ := Prod.mk.inj hn
      rw [attach]
      split
      · rw [List.exists_mem_cons_iff, List.exists_mem_cons_iff, ← or_assoc]
        refine or_congr_left ?_
        simp only [Block.Near, Block.upTo]
        omega
      · rw [List.exists_mem_cons_iff]

theorem exists_joined (h : Covers xs ys i j bs) : ∀ b ∈ bs, ∃ b' ∈ joinBlocks d bs, b.Inside b' := by
  induction bs generalizing i j with
  | nil => exact List.forall_mem_nil _
  | cons b bs ih =>
    obtain ⟨-, hold, hnew, hrest⟩ := h
    have hjoined := joinBlocks_covers (d := d) hrest
    have hbelow := ih hrest
    rw [joinBlocks_cons, List.forall_mem_cons]
    cases hbs : joinBlocks d bs with
    | nil =>
      rw [hbs] at hbelow
      refine ⟨⟨b, List.mem_singleton_self b, by simp [Block.Inside]⟩, fun a ha => ?_⟩
      obtain ⟨a', ha', -⟩ := hbelow a ha
      exact absurd ha' List.not_mem_nil
    | cons next rest =>
      rw [hbs] at hjoined hbelow
      obtain ⟨⟨n, hn, -⟩, hold', hnew', -⟩ := hjoined
      obtain ⟨hx, hy⟩ := Prod.mk.inj hn
      rw [attach]
      split
      · have hfirst : b.Inside (b.upTo next) := by simp only [Block.Inside, Block.upTo]; omega
        have hnext {a : Block} (ha : a.Inside next) : a.Inside (b.upTo next) := by
          simp only [Block.Inside, Block.upTo] at ha ⊢
          omega
        refine ⟨⟨_, List.mem_cons_self, hfirst⟩, fun a ha => ?_⟩
        obtain ⟨a', ha', hinside⟩ := hbelow a ha
        rcases List.mem_cons.mp ha' with rfl | ha'
        · exact ⟨_, List.mem_cons_self, hnext hinside⟩
        · exact ⟨a', List.mem_cons_of_mem _ ha', hinside⟩
      · refine ⟨⟨b, List.mem_cons_self, by simp [Block.Inside]⟩, fun a ha => ?_⟩
        obtain ⟨a', ha', hinside⟩ := hbelow a ha
        exact ⟨a', List.mem_cons_of_mem _ ha', hinside⟩

/-- Above a block the context is cut off alike on both sides: the first block stands at the same place
on both, and above the others there are lines enough. -/
theorem Covers.room_above (h : Covers xs ys 0 0 bs) (hd : bs.Pairwise (Block.Apart c)) :
    ∀ b ∈ bs, min c b.oldStart = min c b.newStart := by
  cases bs with
  | nil => exact List.forall_mem_nil _
  | cons b bs =>
    obtain ⟨⟨n, hn, -⟩, -⟩ := h
    obtain ⟨hx, hy⟩ := Prod.mk.inj hn
    refine List.forall_mem_cons.mpr ⟨by omega, fun a ha => ?_⟩
    obtain ⟨hold, hnew⟩ := (List.pairwise_cons.mp hd).1 a ha
    omega

theorem Covers.room_below (h : Covers xs ys i j bs) (hd : bs.Pairwise (Block.Apart c)) :
    ∀ b ∈ bs, min c (xs.length - b.oldStop) = min c (ys.length - b.newStop) := by
  induction bs generalizing i j with
  | nil => exact List.forall_mem_nil _
  | cons b bs ih =>
    obtain ⟨-, -, -, hrest⟩ := h
    obtain ⟨hhead, htail⟩ := List.pairwise_cons.mp hd
    refine List.forall_mem_cons.mpr ⟨?_, ih hrest htail⟩
    cases bs with
    | nil =>
      obtain ⟨n, hn, -⟩ := hrest
      obtain ⟨hx, hy⟩ := Prod.mk.inj hn
      omega
    | cons next rest =>
      obtain ⟨hold, hnew⟩ := hhead next List.mem_cons_self
      have := hrest.bounds next List.mem_cons_self
      omega

end Reach

section Groups

variable {α : Type} {r : α → α → Bool} {a : α} {l g : List α} {gs : List (List α)}

theorem splitBy_cons_joined (h : l.splitBy r = g :: gs) (hr : ∀ b ∈ g.head?, r a b = true) :
    (a :: l).splitBy r = (a :: g) :: gs := by
  obtain ⟨hl, hnil, hruns, hchain⟩ := List.splitBy_eq_iff.mp h
  obtain ⟨hfirst, hothers⟩ := List.forall_mem_cons.mp hruns
  obtain ⟨hnext, hlater⟩ := List.isChain_cons.mp hchain
  refine List.splitBy_eq_iff.mpr ⟨congrArg (a :: ·) hl, fun hmem => ?_, ?_, ?_⟩
  · rcases List.mem_cons.mp hmem with heq | hmem
    · cases heq
    · exact hnil (List.mem_cons_of_mem g hmem)
  · exact List.forall_mem_cons.mpr ⟨List.isChain_cons.mpr ⟨hr, hfirst⟩, hothers⟩
  · refine List.isChain_cons.mpr ⟨fun m hm => ?_, hlater⟩
    obtain ⟨hg, hm', hrel⟩ := hnext m hm
    exact ⟨List.cons_ne_nil a g, hm', by rwa [List.getLast_cons hg]⟩

theorem splitBy_cons_apart (h : l.splitBy r = g :: gs) (hr : ∀ b ∈ g.head?, r a b = false) :
    (a :: l).splitBy r = [a] :: g :: gs := by
  obtain ⟨hl, hnil, hruns, hchain⟩ := List.splitBy_eq_iff.mp h
  refine List.splitBy_eq_iff.mpr ⟨congrArg (a :: ·) hl, fun hmem => ?_, ?_, ?_⟩
  · rcases List.mem_cons.mp hmem with heq | hmem
    · cases heq
    · exact hnil hmem
  · exact List.forall_mem_cons.mpr ⟨List.isChain_singleton a, hruns⟩
  · refine List.isChain_cons.mpr ⟨fun m hm => ?_, hchain⟩
    obtain rfl : g = m := Option.some.inj hm
    have hg : g ≠ [] := fun hg => hnil (hg ▸ List.mem_cons_self)
    exact ⟨List.cons_ne_nil a [], hg, hr _ (List.head_mem_head? hg)⟩

end Groups

section Hunks

variable {o : Options} {old new : List Text} {bs : List Block} {c c' d k k' : Nat}
  {bare hs hs' : List Hunk}

def Hunk.gap (a b : Hunk) : Int := b.oldStart - (a.oldStart + a.oldCount)

def Hunk.newGap (a b : Hunk) : Int := b.newStart - (a.newStart + a.newCount)

def Hunk.near (d : Nat) (a b : Hunk) : Bool := a.gap b ≤ d

def Hunk.Inside (a b : Hunk) : Prop :=
  (b.oldStart ≤ a.oldStart ∧ a.oldStart + a.oldCount ≤ b.oldStart + b.oldCount) ∧
    b.newStart ≤ a.newStart ∧ a.newStart + a.newCount ≤ b.newStart + b.newCount

/-- The hunk `h` has the lines from the first to the last hunk of a group, and `c` more on either side.
Where there are fewer, in texts of `m` and `n` lines, it is cut off by the same number on both sides. -/
def Widens (c m n : Nat) (group : List Hunk) (h : Hunk) : Prop :=
  ∃ first last : Hunk, group.head? = some first ∧ group.getLast? = some last ∧
    ∃ above below : Int,
      (above = min (c : Int) (first.oldStart - 1) ∧ above = min (c : Int) (first.newStart - 1)) ∧
      (below = min (c : Int) (m + 1 - (last.oldStart + last.oldCount)) ∧
        below = min (c : Int) (n + 1 - (last.newStart + last.newCount))) ∧
      (h.oldStart = first.oldStart - above ∧
        h.oldStart + h.oldCount = last.oldStart + last.oldCount + below) ∧
      h.newStart = first.newStart - above ∧
        h.newStart + h.newCount = last.newStart + last.newCount + below

def Spans (group : List Hunk) (b : Block) : Prop :=
  ∃ first last : Block, group.head? = some first.hunk ∧ group.getLast? = some last.hunk ∧
    b = first.upTo last

theorem Block.near_hunk (a b : Block) : a.hunk.near d b.hunk = decide (b.oldStart - a.oldStop ≤ d) := by
  rw [Hunk.near, decide_eq_decide]
  dsimp only [Hunk.gap, Block.hunk]
  omega

/-- Joining blocks takes them together in maximal runs with at most `d` lines between. -/
theorem groups_joinBlocks (d : Nat) (bs : List Block) :
    List.Forall₂ Spans ((bs.map Block.hunk).splitBy (Hunk.near d)) (joinBlocks d bs) := by
  induction bs with
  | nil => exact .nil
  | cons b bs ih =>
    rw [joinBlocks_cons, List.map_cons]
    generalize hgroups : (bs.map Block.hunk).splitBy (Hunk.near d) = groups at ih
    generalize joinBlocks d bs = joined at ih
    cases ih with
    | nil =>
      rw [List.splitBy_eq_nil.mp hgroups]
      exact .cons ⟨b, b, rfl, rfl, rfl⟩ .nil
    | @cons group next groups rest hspans hrest =>
      obtain ⟨first, last, hfirst, hlast, rfl⟩ := hspans
      rw [attach]
      split
      · next hnear =>
        rw [splitBy_cons_joined hgroups]
        · refine .cons ⟨b, last, rfl, ?_, rfl⟩ hrest
          rw [List.getLast?_cons, hlast]
          rfl
        · intro h hh
          obtain rfl := Option.some.inj (hfirst.symm.trans hh)
          exact (b.near_hunk first).trans (decide_eq_true hnear)
      · next hfar =>
        rw [splitBy_cons_apart hgroups]
        · exact .cons ⟨b, b, rfl, rfl, rfl⟩ (.cons ⟨first, last, hfirst, hlast, rfl⟩ hrest)
        · intro h hh
          obtain rfl := Option.some.inj (hfirst.symm.trans hh)
          exact (b.near_hunk first).trans (decide_eq_false hfar)

def Options.around (o : Options) (c k : Nat) : Options := { o with context := c, joinWithin := k }

theorem hunks_around (o : Options) (c k : Nat) (old new : List Text) :
    hunks (o.around c k) old new = (o.blocks (old.map o.key) (new.map o.key)).map fun bs =>
      (joinBlocks (2 * c + k) bs).map (Block.toHunk c old.length new.length) := rfl

variable {n m : Nat}

theorem map_toHunk_zero (h : ∀ b ∈ bs, b.oldStop ≤ m ∧ b.newStop ≤ n) :
    bs.map (Block.toHunk 0 m n) = bs.map Block.hunk := by
  refine List.map_congr_left fun b hb => ?_
  have := h b hb
  simp only [Block.toHunk, Block.hunk, Nat.sub_zero, Nat.add_zero, Nat.min_eq_right this.1,
    Nat.min_eq_right this.2]

/-- The blocks that are hunks without context; the others are joined from them. -/
theorem blocks_of_bare (h : hunks (o.around 0 0) old new = some bare) :
    ∃ bs, Covers (old.map o.key) (new.map o.key) 0 0 bs ∧ bare = bs.map Block.hunk ∧
      ∀ c k, hunks (o.around c k) old new =
        some ((joinBlocks (2 * c + k) bs).map (Block.toHunk c old.length new.length)) := by
  rw [hunks_around] at h
  obtain ⟨bs, hbs, rfl⟩ := Option.map_eq_some_iff.mp h
  have hcover := joinBlocks_covers (d := 0) (Options.blocks_covers hbs)
  refine ⟨_, hcover, map_toHunk_zero fun b hb => ?_, fun c k => ?_⟩
  · have := hcover.bounds b hb
    rw [List.length_map, List.length_map] at this
    omega
  · rw [hunks_around, hbs, joinBlocks_joinBlocks (Nat.zero_le _)]
    rfl

theorem widens_joinBlocks {xs ys : List Text} (h : Covers xs ys 0 0 bs) :
    List.Forall₂ (Widens c xs.length ys.length)
      ((bs.map Block.hunk).splitBy (Hunk.near (2 * c + k)))
      ((joinBlocks (2 * c + k) bs).map (Block.toHunk c xs.length ys.length)) := by
  have hjoined := joinBlocks_covers (d := 2 * c + k) h
  have hapart : (joinBlocks (2 * c + k) bs).Pairwise (Block.Apart c) :=
    hjoined.apart ((joinBlocks_apart h).imp (by omega))
  have hrooms : ∀ b ∈ joinBlocks (2 * c + k) bs, min c b.oldStart = min c b.newStart ∧
      min c (xs.length - b.oldStop) = min c (ys.length - b.newStop) ∧
      b.oldStop ≤ xs.length ∧ b.newStop ≤ ys.length := fun b hb =>
    ⟨hjoined.room_above hapart b hb, hjoined.room_below hapart b hb,
      (hjoined.bounds b hb).1.2.2, (hjoined.bounds b hb).2.2.2⟩
  have hspans := (List.forall₂_and_left _ _).mpr ⟨hrooms, (groups_joinBlocks (2 * c + k) bs).flip⟩
  refine List.forall₂_map_right_iff.mpr (hspans.imp ?_).flip
  rintro b group ⟨⟨habove, hbelow, hold, hnew⟩, first, last, hfirst, hlast, rfl⟩
  refine ⟨first.hunk, last.hunk, hfirst, hlast, (min c first.oldStart : Nat),
    (min c (xs.length - last.oldStop) : Nat), ?_⟩
  dsimp only [Block.upTo] at habove hbelow hold hnew
  dsimp only [Block.hunk, Block.toHunk, Block.upTo]
  omega

theorem Block.hasNew_toHunk (b : Block) (c m n : Nat) (line : Int) :
    ((b.toHunk c m n).newStart ≤ line ∧
        line < (b.toHunk c m n).newStart + (b.toHunk c m n).newCount) ↔
      (1 ≤ line ∧ line ≤ n) ∧ b.Near c (line - 1).toNat := by
  dsimp only [Block.toHunk, Block.Near]
  omega

theorem Block.near_iff (b : Block) (c : Nat) {line : Int} (hline : 1 ≤ line) :
    (b.hunk.newStart - c ≤ line ∧ line < b.hunk.newStart + b.hunk.newCount + c) ↔
      b.Near c (line - 1).toNat := by
  dsimp only [Block.hunk, Block.Near]
  omega

/-- If hunks are joined only where their context meets, they have the lines that are near to a change. -/
theorem hasNew_joined_iff {xs ys : List Text} {i j : Nat} (h : Covers xs ys i j bs) (line : Int) :
    (∃ h ∈ (joinBlocks (2 * c) bs).map (Block.toHunk c m n),
        h.newStart ≤ line ∧ line < h.newStart + h.newCount) ↔
      (1 ≤ line ∧ line ≤ n) ∧
        ∃ h ∈ bs.map Block.hunk, h.newStart - c ≤ line ∧ line < h.newStart + h.newCount + c := by
  constructor
  · rintro ⟨_, hh, hline⟩
    obtain ⟨b, hb, rfl⟩ := List.mem_map.mp hh
    obtain ⟨htext, hnear⟩ := (b.hasNew_toHunk ..).mp hline
    obtain ⟨b', hb', hnear'⟩ := (near_joinBlocks_iff h).mp ⟨b, hb, hnear⟩
    exact ⟨htext, _, List.mem_map_of_mem hb', (b'.near_iff c htext.1).mpr hnear'⟩
  · rintro ⟨htext, _, hh, hline⟩
    obtain ⟨b, hb, rfl⟩ := List.mem_map.mp hh
    obtain ⟨b', hb', hnear⟩ := (near_joinBlocks_iff h).mpr ⟨b, hb, (b.near_iff c htext.1).mp hline⟩
    exact ⟨_, List.mem_map_of_mem hb', (b'.hasNew_toHunk ..).mpr ⟨htext, hnear⟩⟩

theorem Block.Inside.toHunk {a b : Block} (h : a.Inside b) (hc : c ≤ c') (m n : Nat) :
    (a.toHunk c m n).Inside (b.toHunk c' m n) := by
  simp only [Block.Inside] at h
  simp only [Hunk.Inside, Block.toHunk]
  omega

/-- With more context, and joined further, hunks only grow. -/
theorem inside_joined {xs ys : List Text} {i j : Nat} (h : Covers xs ys i j bs) (hc : c ≤ c')
    (hk : k ≤ k') : ∀ h ∈ (joinBlocks (2 * c + k) bs).map (Block.toHunk c m n),
      ∃ h' ∈ (joinBlocks (2 * c' + k') bs).map (Block.toHunk c' m n), h.Inside h' := by
  intro _ hh
  obtain ⟨b, hb, rfl⟩ := List.mem_map.mp hh
  rw [← joinBlocks_joinBlocks (show 2 * c + k ≤ 2 * c' + k' by omega)]
  obtain ⟨b', hb', hinside⟩ := exists_joined (joinBlocks_covers h) b hb
  exact ⟨_, List.mem_map_of_mem hb', hinside.toHunk hc ..⟩

/-- Between one hunk and the next there are as many old lines as new ones. -/
theorem Covers.isChain_gaps {xs ys : List Text} {i j : Nat} (h : Covers xs ys i j bs)
    (hd : bs.Pairwise (Block.Apart k)) :
    (bs.map Block.hunk).IsChain fun a b => a.newGap b = a.gap b ∧ (k : Int) < a.gap b := by
  induction bs generalizing i j with
  | nil => exact .nil
  | cons b bs ih =>
    obtain ⟨-, -, -, hrest⟩ := h
    obtain ⟨hhead, htail⟩ := List.pairwise_cons.mp hd
    refine List.isChain_cons.mpr ⟨fun h hh => ?_, ih hrest htail⟩
    cases bs with
    | nil => cases hh
    | cons next rest =>
      obtain ⟨⟨n, hn, -⟩, -⟩ := hrest
      obtain ⟨hx, hy⟩ := Prod.mk.inj hn
      obtain ⟨hfar, -⟩ := hhead next List.mem_cons_self
      obtain rfl := Option.some.inj hh
      dsimp only [Hunk.newGap, Hunk.gap, Block.hunk]
      omega

/-- The hunks with `c` lines of context, joined with up to `k` lines between, are those without either,
taken together in maximal runs with at most `2 * c + k` lines between and widened by `c` lines. -/
theorem hunks_by_context (o : Options) (old new : List Text) :
    (∀ c k, (hunks (o.around c k) old new).isSome = (hunks (o.around 0 0) old new).isSome) ∧
    ∀ {bare}, hunks (o.around 0 0) old new = some bare →
    ∀ {c k hs}, hunks (o.around c k) old new = some hs →
      List.Forall₂ (Widens c old.length new.length) (bare.splitBy (Hunk.near (2 * c + k))) hs ∧
      ((hs.IsChain fun a b => a.newGap b = a.gap b ∧ (k : Int) < a.gap b) ∧
        ∀ s ∈ stretches (old.map o.key) (new.map o.key) 0 0 hs, s.1 = s.2) ∧
      (k = 0 → ∀ line : Int,
        (∃ h ∈ hs, h.newStart ≤ line ∧ line < h.newStart + h.newCount) ↔
          (1 ≤ line ∧ line ≤ new.length) ∧
            ∃ h ∈ bare, h.newStart - c ≤ line ∧ line < h.newStart + h.newCount + c) ∧
      ∀ {c' k' hs'}, c ≤ c' → k ≤ k' → hunks (o.around c' k') old new = some hs' →
        ∀ h ∈ hs, ∃ h' ∈ hs', h.Inside h' := by
  constructor
  · intro c k
    simp only [hunks_around, Option.isSome_map]
  intro bare hbare c k hs hhs
  obtain ⟨blocks, hlines, hblocks, hapart⟩ := hunks_covers hhs
  obtain ⟨bs, hcover, rfl, haround⟩ := blocks_of_bare hbare
  obtain rfl := Option.some.inj ((haround c k).symm.trans hhs)
  refine ⟨?_, ⟨?_, ?_⟩, ?_, ?_⟩
  · have hwidens := widens_joinBlocks (c := c) (k := k) hcover
    rwa [List.length_map, List.length_map] at hwidens
  · rw [hlines]
    exact hblocks.isChain_gaps hapart
  · rw [hlines]
    exact hblocks.stretches_eq
  · rintro rfl line
    exact hasNew_joined_iff hcover line
  · intro c' k' hs' hc hk hhs'
    obtain rfl := Option.some.inj ((haround c' k').symm.trans hhs')
    exact inside_joined hcover hc hk

/-- Two changes with two lines between are one hunk with a line of context, cut off above where the text
starts. -/
theorem line_of_context_joins_changes :
    let old : List Text := ["a", "b", "c", "d", "e", "f"]
    let new : List Text := ["A", "b", "c", "D", "D", "e", "f"]
    let o : Options := {}
    hunks (o.around 0 0) old new = some [⟨1, 1, 1, 1⟩, ⟨4, 1, 4, 2⟩] ∧
      hunks (o.around 1 0) old new = some [⟨1, 5, 1, 6⟩] ∧
      hunks (o.around 2 1) old new = some [⟨1, 6, 1, 7⟩] ∧
      List.Forall₂ (Widens 1 6 7) [[⟨1, 1, 1, 1⟩, ⟨4, 1, 4, 2⟩]] [⟨1, 5, 1, 6⟩] ∧
      ∃ h' ∈ [(⟨1, 6, 1, 7⟩ : Hunk)], Hunk.Inside ⟨1, 5, 1, 6⟩ h' := by
  intro old new o
  have hbare : hunks (o.around 0 0) old new = some [⟨1, 1, 1, 1⟩, ⟨4, 1, 4, 2⟩] := by decide +kernel
  have hone : hunks (o.around 1 0) old new = some [⟨1, 5, 1, 6⟩] := by decide +kernel
  have htwo : hunks (o.around 2 1) old new = some [⟨1, 6, 1, 7⟩] := by decide +kernel
  obtain ⟨hwidens, -, -, hinside⟩ := (hunks_by_context o old new).2 hbare hone
  exact ⟨hbare, hone, htwo, hwidens,
    hinside (by decide) (by decide) htwo _ (List.mem_singleton_self _)⟩

end Hunks

end Hunkwise.Diff
