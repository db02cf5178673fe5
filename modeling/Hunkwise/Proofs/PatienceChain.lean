import Hunkwise.Diff.Patience
import Hunkwise.Proofs.Alignment

/-! The patience alignment is sound. Anchors come in the new order and a pile's chain falls in the
old one, so the chain that is kept grows on both sides; it stays sound when the stretches between
its pairs are filled with sound alignments. -/

namespace Hunkwise.Diff

variable {α : Type} {xs ys : List α} {i j q : Nat} {ps chain below : Pairs} {piles : List Pairs}

/-- A chain read from its last pair on, all of it before the new place `q`. -/
structure Falls (xs ys : List α) (q : Nat) (chain : Pairs) : Prop where
  falls : chain.Pairwise fun a b => b.1 < a.1 ∧ b.2 < a.2
  before : ∀ p ∈ chain, p.2 < q
  agrees : ∀ p ∈ chain, ∃ x, xs[p.1]? = some x ∧ ys[p.2]? = some x

theorem falls_nil (xs ys : List α) (q : Nat) : Falls xs ys q [] := ⟨.nil, by simp, by simp⟩

theorem Falls.mono {q' : Nat} (h : Falls xs ys q chain) (hq : q ≤ q') : Falls xs ys q' chain :=
  ⟨h.falls, fun p hp => Nat.lt_of_lt_of_le (h.before p hp) hq, h.agrees⟩

theorem Falls.cons {a : Nat × Nat} (h : Falls xs ys a.2 chain) (hlt : ∀ p ∈ chain, p.1 < a.1)
    (ha : ∃ x, xs[a.1]? = some x ∧ ys[a.2]? = some x) : Falls xs ys (a.2 + 1) (a :: chain) where
  falls := List.pairwise_cons.mpr ⟨fun p hp => ⟨hlt p hp, h.before p hp⟩, h.falls⟩
  before := by
    intro p hp
    rcases List.mem_cons.mp hp with rfl | hp
    · exact Nat.lt_succ_self _
    · exact Nat.lt_succ_of_lt (h.before p hp)
  agrees := by
    intro p hp
    rcases List.mem_cons.mp hp with rfl | hp
    · exact ha
    · exact h.agrees p hp

theorem falls_place {a : Nat × Nat} (ha : ∃ x, xs[a.1]? = some x ∧ ys[a.2]? = some x)
    (hb : Falls xs ys a.2 below) (hlt : ∀ p ∈ below, p.1 < a.1)
    (h : ∀ c ∈ piles, Falls xs ys a.2 c) :
    ∀ c ∈ place a below piles, Falls xs ys (a.2 + 1) c := by
  induction piles generalizing below with
  | nil =>
    intro c hc
    rw [List.mem_singleton.mp hc]
    exact hb.cons hlt ha
  | cons chain piles ih =>
    have hchain := h chain List.mem_cons_self
    have hpiles : ∀ c ∈ piles, Falls xs ys a.2 c := fun c hc => h c (List.mem_cons_of_mem _ hc)
    -- an anchor that takes the place of a chain goes on top of the chain to its left
    have hreplace : ∀ c ∈ (a :: below) :: piles, Falls xs ys (a.2 + 1) c := by
      intro c hc
      rcases List.mem_cons.mp hc with rfl | hc
      · exact hb.cons hlt ha
      · exact (hpiles c hc).mono (Nat.le_succ _)
    unfold place
    split
    · next top rest =>
      split
      · next htop =>
        have hunder : ∀ p ∈ top :: rest, p.1 < a.1 := by
          intro p hp
          rcases List.mem_cons.mp hp with rfl | hp
          · exact htop
          · exact Nat.lt_trans ((List.pairwise_cons.mp hchain.falls).1 p hp).1 htop
        intro c hc
        rcases List.mem_cons.mp hc with rfl | hc
        · exact hchain.mono (Nat.le_succ _)
        · exact ih hchain hunder hpiles c hc
      · exact hreplace
    · exact hreplace

theorem falls_foldl_place {as : Pairs} (hgrow : as.Pairwise fun a b => a.2 < b.2)
    (hagree : ∀ a ∈ as, ∃ x, xs[a.1]? = some x ∧ ys[a.2]? = some x)
    (h : ∀ c ∈ piles, Falls xs ys q c) (hq : ∀ a ∈ as, q ≤ a.2) :
    ∀ c ∈ as.foldl (fun piles a => place a [] piles) piles, ∃ q', Falls xs ys q' c := by
  induction as generalizing piles q with
  | nil => exact fun c hc => ⟨q, h c hc⟩
  | cons a as ih =>
    obtain ⟨hhead, htail⟩ := List.pairwise_cons.mp hgrow
    have hqa := hq a List.mem_cons_self
    refine ih htail (fun b hb => hagree b (List.mem_cons_of_mem _ hb)) ?_ hhead
    exact falls_place (hagree a List.mem_cons_self) (falls_nil ..) (by simp)
      fun c hc => (h c hc).mono hqa

section Anchors

variable [DecidableEq α]

theorem anchors_grow (xs ys : List α) : (anchors xs ys).Pairwise fun a b => a.2 < b.2 := by
  have hidx : (ys.zipIdx.map Prod.snd).Pairwise (· < ·) := by
    rw [List.zipIdx_map_snd]
    exact List.pairwise_lt_range'
  refine List.pairwise_filterMap.mpr ((List.pairwise_map.mp hidx).imp ?_)
  rintro ⟨y, j⟩ ⟨z, k⟩ hjk a ha b hb
  rw [Option.ite_none_right_eq_some] at ha hb
  rw [← Option.some.inj ha.2, ← Option.some.inj hb.2]
  exact hjk

theorem anchors_agree (xs ys : List α) :
    ∀ p ∈ anchors xs ys, ∃ x, xs[p.1]? = some x ∧ ys[p.2]? = some x := by
  intro p hp
  obtain ⟨⟨y, j⟩, hy, hp⟩ := List.mem_filterMap.mp hp
  rw [Option.ite_none_right_eq_some] at hp
  obtain ⟨hcount, hp⟩ := hp
  obtain rfl := Option.some.inj hp
  have hmem : y ∈ xs := List.count_pos_iff.mp (by omega)
  have hlt := List.idxOf_lt_length_of_mem hmem
  exact ⟨y, List.getElem?_eq_some_iff.mpr ⟨hlt, List.getElem_idxOf hlt⟩,
    List.mem_zipIdx_iff_getElem?.mp hy⟩

theorem aligned_uniqueChain (xs ys : List α) : Aligned xs ys (uniqueChain xs ys) := by
  unfold uniqueChain
  dsimp only
  cases hlast : ((anchors xs ys).foldl (fun piles a => place a [] piles) []).getLast? with
  | none => exact aligned_nil xs ys
  | some chain =>
    obtain ⟨q, hq⟩ := falls_foldl_place (q := 0) (anchors_grow xs ys) (anchors_agree xs ys)
      (by simp) (fun _ _ => Nat.zero_le _) chain (List.mem_of_getLast? hlast)
    exact ⟨List.pairwise_reverse.mpr hq.falls, fun p hp => hq.agrees p (List.mem_reverse.mp hp)⟩

end Anchors

theorem shift_append (i j : Nat) (ps qs : Pairs) :
    shift i j (ps ++ qs) = shift i j ps ++ shift i j qs := List.map_append

theorem shift_shift (i j p q : Nat) (ps : Pairs) :
    shift i j (shift p q ps) = shift (p + i) (q + j) ps := by
  simp only [shift, List.map_map]
  congr 1
  funext r
  simp only [Function.comp_apply, Nat.add_assoc]

def SoundInner (inner : List α → List α → Option Pairs) : Prop :=
  ∀ xs ys ps, inner xs ys = some ps → Aligned xs ys ps

section Filling

variable {inner : List α → List α → Option Pairs}

theorem fillGaps_cons {p q : Nat} (hinner : SoundInner inner)
    (h : fillGaps inner xs ys i j ((p, q) :: chain) = some ps) :
    ∃ before after, Aligned (part xs i p) (part ys j q) before ∧
      fillGaps inner xs ys (p + 1) (q + 1) chain = some after ∧
      ps = shift i j before ++ (p, q) :: after := by
  simp only [fillGaps, Option.bind_eq_bind] at h
  split at h
  · rw [Option.bind_some, Option.bind_eq_some_iff] at h
    obtain ⟨after, hafter, hps⟩ := h
    exact ⟨[], after, aligned_nil _ _, hafter, (Option.some.inj hps).symm⟩
  · simp only [Option.bind_eq_some_iff, Option.map_eq_some_iff] at h
    obtain ⟨_, ⟨before, hbefore, rfl⟩, after, hafter, hps⟩ := h
    exact ⟨before, after, hinner _ _ _ hbefore, hafter, (Option.some.inj hps).symm⟩

theorem aligned_fillGaps (hinner : SoundInner inner) (hchain : Aligned xs ys chain)
    (hij : ∀ p ∈ chain, i ≤ p.1 ∧ j ≤ p.2) (h : fillGaps inner xs ys i j chain = some ps) :
    ∃ qs, ps = shift i j qs ∧ Aligned (xs.drop i) (ys.drop j) qs := by
  induction chain generalizing i j ps with
  | nil =>
    obtain ⟨qs, hqs, rfl⟩ := Option.map_eq_some_iff.mp h
    exact ⟨qs, rfl, hinner _ _ _ hqs⟩
  | cons a chain ih =>
    obtain ⟨p, q⟩ := a
    obtain ⟨hgrow, htail⟩ := List.pairwise_cons.mp hchain.grows
    obtain ⟨hip, hjq⟩ := hij (p, q) List.mem_cons_self
    obtain ⟨hp, hq⟩ := hchain.lt List.mem_cons_self
    dsimp only at hip hjq hp hq
    obtain ⟨before, after, hbefore, hafter, rfl⟩ := fillGaps_cons hinner h
    obtain ⟨qs, rfl, hqs⟩ := ih
      ⟨htail, fun r hr => hchain.agrees r (List.mem_cons_of_mem _ hr)⟩ hgrow hafter
    have hpi : p - i + i = p := by omega
    have hqj : q - j + j = q := by omega
    refine ⟨before ++ shift (p - i) (q - j) (diagonal 1)
      ++ shift (p - i + 1) (q - j + 1) qs, ?_, ?_⟩
    · simp only [shift_append, shift_shift, Nat.add_right_comm _ 1, hpi, hqj, List.append_assoc]
      simp [shift, diagonal]
    · have hone : Agree (xs.drop i) (ys.drop j) (p - i) (q - j) 1 := by
        rw [agree_drop, Nat.add_comm i, Nat.add_comm j, hpi, hqj]
        intro k hk
        rw [show k = 0 by omega]
        exact hchain.agrees (p, q) List.mem_cons_self
      refine hone.aligned_around ?_ ?_ hbefore ?_
      · rw [List.length_drop]; omega
      · rw [List.length_drop]; omega
      · rwa [List.drop_drop, List.drop_drop, show i + (p - i + 1) = p + 1 by omega,
          show j + (q - j + 1) = q + 1 by omega]

theorem aligned_alignEnds [DecidableEq α] (hinner : SoundInner inner)
    (h : alignEnds inner xs ys = some ps) : Aligned xs ys ps := by
  unfold alignEnds at h
  dsimp only at h
  split at h
  · obtain ⟨qs, hqs, rfl⟩ := Option.map_eq_some_iff.mp h
    have hle := commonPrefix_le xs ys
    have hhead := (agree_commonPrefix xs ys).aligned (by omega)
    exact Aligned.append_at hhead (hinner _ _ _ hqs) hle.1 hle.2
  · split at h
    · obtain ⟨qs, hqs, rfl⟩ := Option.map_eq_some_iff.mp h
      have hle := commonSuffix_le xs ys
      have htail := (agree_commonSuffix xs ys).aligned (by omega)
      rw [List.take_of_length_le (by rw [List.length_drop]; omega),
        List.take_of_length_le (by rw [List.length_drop]; omega)] at htail
      exact Aligned.append_at (hinner _ _ _ hqs) htail (Nat.sub_le ..) (Nat.sub_le ..)
    · rw [← Option.some.inj h]
      exact aligned_nil xs ys

end Filling

theorem aligned_patience [DecidableEq α] (levels : Nat) :
    SoundInner (patience (α := α) levels) := by
  induction levels with
  | zero => intro xs ys ps h; exact absurd h (by simp [patience])
  | succ levels ih =>
    intro xs ys ps h
    unfold patience at h
    split at h
    · rw [← Option.some.inj h]
      exact aligned_nil xs ys
    · split at h
      · exact aligned_alignEnds ih h
      · obtain ⟨qs, rfl, hqs⟩ := aligned_fillGaps ih (aligned_uniqueChain xs ys)
          (fun _ _ => ⟨Nat.zero_le _, Nat.zero_le _⟩) h
        have : shift 0 0 qs = qs := List.map_id qs
        rwa [this]

end Hunkwise.Diff
