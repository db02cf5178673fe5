import Hunkwise.Proofs.AttachmentLayers

/-! Layers of a configuration, merged in any grouping. Merging two layers is an update of tables, on
the outside and again among the diff options, and updates can be put together from either end. So it
makes no difference which layers are merged first, as long as their order stays, and layers that are
empty or come twice in a row change nothing. -/

namespace Hunkwise

open Settings

variable {base lower upper provided options : Fields}

/-- A layer with the given diff options, none if it has no such key. Every key of either stands
once. -/
structure Layer (fs options : Fields) : Prop where
  keys : Table.Distinct fs
  diff : diffOptions? fs = some options
  diff_keys : Table.Distinct options

def IsLayer (fs : Fields) : Prop := ∃ options, Layer fs options

/-- The same keys in the same order, and for all but the diff options the same values. -/
structure Alongside (fs fs' : Fields) : Prop where
  keys : fs.keys = fs'.keys
  values : ∀ key : Text, key ≠ "diff_options" → fs.get? key = fs'.get? key

section Alongside

variable {fs fs' fs'' : Fields}

theorem Alongside.refl (fs : Fields) : Alongside fs fs := ⟨rfl, fun _ _ => rfl⟩

theorem Alongside.symm (h : Alongside fs fs') : Alongside fs' fs :=
  ⟨h.keys.symm, fun key hkey => (h.values key hkey).symm⟩

theorem Alongside.trans (h : Alongside fs fs') (h' : Alongside fs' fs'') : Alongside fs fs'' :=
  ⟨h.keys.trans h'.keys, fun key hkey => (h.values key hkey).trans (h'.values key hkey)⟩

theorem Alongside.update_base (h : Alongside fs fs') (hupper : Table.Distinct upper) :
    Alongside (fs.update upper) (fs'.update upper) where
  keys := by rw [Table.keys_update hupper, Table.keys_update hupper, h.keys]
  values key hkey := by rw [Table.get?_update hupper, Table.get?_update hupper, h.values key hkey]

theorem Alongside.update_upper (h : Alongside fs fs') (hfs : Table.Distinct fs)
    (hfs' : Table.Distinct fs') (base : Fields) :
    Alongside (base.update fs) (base.update fs') where
  keys := by rw [Table.keys_update hfs, Table.keys_update hfs', h.keys]
  values key hkey := by rw [Table.get?_update hfs, Table.get?_update hfs', h.values key hkey]

end Alongside

section Merge

theorem diffOptions?_eq_some {fs : Fields} : diffOptions? fs = some options ↔
    fs.get? "diff_options" = none ∧ options = [] ∨
      fs.get? "diff_options" = some (.obj options) := by
  unfold diffOptions?
  cases fs.get? "diff_options" with
  | none => simp [eq_comm]
  | some v => cases v <;> simp

theorem Layer.ext {fs fs' : Fields} (h : Layer fs options) (h' : Layer fs' options)
    (hsame : Alongside fs fs') : fs = fs' := by
  refine Table.ext_get? h.keys hsame.keys fun key => ?_
  by_cases hkey : key = "diff_options"
  · subst hkey
    have hnone : fs.get? "diff_options" = none ↔ fs'.get? "diff_options" = none := by
      rw [Table.get?_eq_none, Table.get?_eq_none, hsame.keys]
    rcases diffOptions?_eq_some.mp h.diff with ⟨h₁, -⟩ | h₁
    · rw [h₁, hnone.mp h₁]
    · rcases diffOptions?_eq_some.mp h'.diff with ⟨h₂, -⟩ | h₂
      · rw [hnone.mpr h₂, h₂]
      · rw [h₁, h₂]
  · exact hsame.values key hkey

theorem mergeLayers_absent (h : provided.get? "diff_options" = none) (base : Fields) :
    mergeLayers base provided = .ok (base.update provided) := by
  rw [mergeLayers, h]

theorem Layer.mergeLayers_given (hbase : Layer base lower) (hupper : Table.Distinct upper)
    (h : provided.get? "diff_options" = some (.obj upper)) :
    mergeLayers base provided =
      .ok ((base.update provided).set "diff_options" (.obj (lower.update upper))) := by
  rw [mergeLayers, h]
  rcases diffOptions?_eq_some.mp hbase.diff with ⟨hnone, rfl⟩ | hlower
  · rw [hnone, Table.update_nil hupper]
  · rw [hlower]

/-- Two layers merge into one: outside it is an update, and inside an update of the diff options. -/
theorem Layer.merge (hbase : Layer base lower) (hprovided : Layer provided upper) :
    ∃ merged, mergeLayers base provided = .ok merged ∧ Layer merged (lower.update upper) ∧
      Alongside merged (base.update provided) := by
  have hkeys := hbase.keys.update provided
  have hdiff := hbase.diff_keys.update upper
  rcases diffOptions?_eq_some.mp hprovided.diff with ⟨hnone, rfl⟩ | hupper
  · refine ⟨_, mergeLayers_absent hnone base, ⟨hkeys, ?_, hdiff⟩, .refl _⟩
    rw [diffOptions?, Table.get?_update hprovided.keys, hnone, Option.none_or]
    exact hbase.diff
  · refine ⟨_, hbase.mergeLayers_given hprovided.diff_keys hupper, ⟨hkeys.set _ _, ?_, hdiff⟩, ?_,
      fun key hkey => Table.get?_set_of_ne hkey _ _⟩
    · rw [diffOptions?, Table.get?_set_self]
    · refine Table.keys_set_of_mem (Table.mem_keys_update.mpr (.inr ?_)) _
      rw [← Table.isSome_get?, hupper]
      rfl

theorem IsLayer.merge (hbase : IsLayer base) (hprovided : IsLayer provided) :
    ∃ merged, mergeLayers base provided = .ok merged ∧ IsLayer merged := by
  obtain ⟨lower, hbase⟩ := hbase
  obtain ⟨upper, hprovided⟩ := hprovided
  obtain ⟨merged, hmerged, hm, -⟩ := hbase.merge hprovided
  exact ⟨merged, hmerged, _, hm⟩

/-- Three layers merge into one, whichever two of them are merged first. -/
theorem IsLayer.merge_assoc {fs₁ fs₂ fs₃ : Fields} (h₁ : IsLayer fs₁) (h₂ : IsLayer fs₂)
    (h₃ : IsLayer fs₃) :
    ∃ below above whole, mergeLayers fs₁ fs₂ = .ok below ∧ mergeLayers fs₂ fs₃ = .ok above ∧
      mergeLayers below fs₃ = .ok whole ∧ mergeLayers fs₁ above = .ok whole := by
  obtain ⟨o₁, h₁⟩ := h₁
  obtain ⟨o₂, h₂⟩ := h₂
  obtain ⟨o₃, h₃⟩ := h₃
  obtain ⟨below, hbelow, hb, hb'⟩ := h₁.merge h₂
  obtain ⟨above, habove, ha, ha'⟩ := h₂.merge h₃
  obtain ⟨whole, hwhole, hw, hw'⟩ := hb.merge h₃
  obtain ⟨again, hagain, hg, hg'⟩ := h₁.merge ha
  rw [Table.update_assoc h₁.diff_keys h₂.diff_keys h₃.diff_keys] at hw
  have hupdate : Alongside whole (fs₁.update (fs₂.update fs₃)) := by
    rw [← Table.update_assoc h₁.keys h₂.keys h₃.keys]
    exact hw'.trans (hb'.update_base h₃.keys)
  have hsame : again = whole :=
    hg.ext hw ((hg'.trans (ha'.update_upper ha.keys (h₂.keys.update fs₃) fs₁)).trans hupdate.symm)
  exact ⟨below, above, whole, hbelow, habove, hwhole, hsame ▸ hagain⟩

theorem layer_nil : Layer [] [] := ⟨Table.distinct_nil, rfl, Table.distinct_nil⟩

theorem mergeLayers_nil (base : Fields) : mergeLayers base [] = .ok base := rfl

/-- A layer that brings all that is below it, outside and among the diff options, covers it. -/
theorem Layer.merge_covered (hbase : Layer base lower) (hprovided : Layer provided upper)
    (houter : base.update provided = provided) (hinner : lower.update upper = upper) :
    mergeLayers base provided = .ok provided := by
  obtain ⟨merged, hmerged, hm, hm'⟩ := hbase.merge hprovided
  rw [hinner] at hm
  rw [houter] at hm'
  rw [hmerged, hm.ext hprovided hm']

theorem IsLayer.nil_merge (h : IsLayer provided) : mergeLayers [] provided = .ok provided := by
  obtain ⟨options, h⟩ := h
  exact layer_nil.merge_covered h (Table.update_nil h.keys) (Table.update_nil h.diff_keys)

theorem IsLayer.merge_self (h : IsLayer provided) : mergeLayers provided provided = .ok provided := by
  obtain ⟨options, h⟩ := h
  exact h.merge_covered h (Table.update_self h.keys) (Table.update_self h.diff_keys)

theorem IsLayer.merge_again (hbase : IsLayer base) (hprovided : IsLayer provided) :
    ∃ once, mergeLayers base provided = .ok once ∧ mergeLayers once provided = .ok once := by
  obtain ⟨once, twice, whole, honce, htwice, hwhole, hagain⟩ :=
    hbase.merge_assoc hprovided hprovided
  rw [hprovided.merge_self] at htwice
  cases htwice
  rw [honce] at hagain
  cases hagain
  exact ⟨once, honce, hwhole⟩

end Merge

inductive Grouping where
  | layer (fs : Fields)
  | merge (below above : Grouping)

namespace Grouping

def layers : Grouping → List Fields
  | layer fs => [fs]
  | merge below above => below.layers ++ above.layers

def merged : Grouping → Except MergeFault Fields
  | layer fs => .ok fs
  | merge below above => do mergeLayers (← below.merged) (← above.merged)

theorem merged_merge {below above : Grouping} (hbelow : below.merged = .ok base)
    (habove : above.merged = .ok provided) :
    (merge below above).merged = mergeLayers base provided := by
  rw [merged, hbelow, habove]
  rfl

/-- Groups of layers can be merged, and over another layer they come to the same as their layers one
after the other. -/
theorem exists_merged {g : Grouping} (h : ∀ fs ∈ g.layers, IsLayer fs) :
    ∃ fs, g.merged = .ok fs ∧ IsLayer fs ∧
      ∀ base, IsLayer base → g.layers.foldlM mergeLayers base = mergeLayers base fs := by
  induction g with
  | layer fs =>
    refine ⟨fs, rfl, h fs (List.mem_singleton_self fs), fun base _ => ?_⟩
    rw [layers, List.foldlM_cons]
    exact bind_pure _
  | merge below above ihb iha =>
    obtain ⟨hbelow, habove⟩ := List.forall_mem_append.mp h
    obtain ⟨lower, hl, hlower, hlfold⟩ := ihb hbelow
    obtain ⟨upper, hu, hupper, hufold⟩ := iha habove
    obtain ⟨fs, hfs, hlayer⟩ := hlower.merge hupper
    refine ⟨fs, ?_, hlayer, fun base hbase => ?_⟩
    · rw [merged_merge hl hu, hfs]
    · obtain ⟨below', above', whole, hb', ha', hwhole, hwhole'⟩ := hbase.merge_assoc hlower hupper
      obtain ⟨below'', hb'', hlayer'⟩ := hbase.merge hlower
      cases hb'.symm.trans hb''
      cases ha'.symm.trans hfs
      rw [layers, List.foldlM_append, hlfold base hbase, hb', hwhole']
      exact (hufold _ hlayer').trans hwhole

theorem merged_eq_foldlM {g : Grouping} (h : ∀ fs ∈ g.layers, IsLayer fs) :
    g.merged = g.layers.foldlM mergeLayers [] := by
  obtain ⟨fs, hfs, hlayer, hfold⟩ := exists_merged h
  rw [hfs, hfold [] ⟨[], layer_nil⟩, hlayer.nil_merge]

end Grouping

theorem Registry.attach_congr {base' provided' : Fields}
    (h : mergeLayers base provided = mergeLayers base' provided') (reg : Registry) (buffer : Text)
    (client : Client) : reg.attach buffer client base provided =
      reg.attach buffer client base' provided' := by
  simp only [attach, configure, h]

/-- Merging layers is associative, down to the order of the keys; an empty layer changes nothing on
either side, and a layer that comes twice is merged once. -/
theorem layers_merge_in_any_grouping {lowest middle highest : Fields} (hlowest : IsLayer lowest)
    (hmiddle : IsLayer middle) (hhighest : IsLayer highest) :
    (∃ below above whole, mergeLayers lowest middle = .ok below ∧
      mergeLayers middle highest = .ok above ∧ mergeLayers below highest = .ok whole ∧
      mergeLayers lowest above = .ok whole) ∧
    (mergeLayers lowest [] = .ok lowest ∧ mergeLayers [] lowest = .ok lowest) ∧
    (∃ once, mergeLayers lowest middle = .ok once ∧ mergeLayers once middle = .ok once) ∧
    ∀ below above below' above' : Grouping,
      below.layers ++ above.layers = below'.layers ++ above'.layers →
      (∀ fs ∈ below.layers ++ above.layers, IsLayer fs) →
      ∃ base provided base' provided', below.merged = .ok base ∧ above.merged = .ok provided ∧
        below'.merged = .ok base' ∧ above'.merged = .ok provided' ∧
        ∀ (reg : Registry) (buffer : Text) (client : Client),
          reg.attach buffer client base provided = reg.attach buffer client base' provided' := by
  refine ⟨hlowest.merge_assoc hmiddle hhighest, ⟨mergeLayers_nil lowest, hlowest.nil_merge⟩,
    hlowest.merge_again hmiddle, fun below above below' above' hsame h => ?_⟩
  have h' : ∀ fs ∈ below'.layers ++ above'.layers, IsLayer fs := hsame ▸ h
  obtain ⟨hbelow, habove⟩ := List.forall_mem_append.mp h
  obtain ⟨hbelow', habove'⟩ := List.forall_mem_append.mp h'
  obtain ⟨base, hbase, -⟩ := Grouping.exists_merged hbelow
  obtain ⟨provided, hprovided, -⟩ := Grouping.exists_merged habove
  obtain ⟨base', hbase', -⟩ := Grouping.exists_merged hbelow'
  obtain ⟨provided', hprovided', -⟩ := Grouping.exists_merged habove'
  have hmerged : mergeLayers base provided = mergeLayers base' provided' := by
    rw [← Grouping.merged_merge hbase hprovided, ← Grouping.merged_merge hbase' hprovided',
      Grouping.merged_eq_foldlM (g := .merge below above) h,
      Grouping.merged_eq_foldlM (g := .merge below' above') h', Grouping.layers, Grouping.layers,
      hsame]
  exact ⟨base, provided, base', provided', hbase, hprovided, hbase', hprovided',
    fun reg buffer client => Registry.attach_congr hmerged reg buffer client⟩

/-- A layer without diff options between two layers with some. -/
theorem layers_merge_around_no_options :
    let lowest : Fields := [("vcs", .str "hg"), ("diff_options", .obj [("ctxlen", .int 3)])]
    let middle : Fields := [("format_on_save", .bool true), ("vcs", .str "git")]
    let highest : Fields := [("diff_options", .obj [("algorithm", .str "difflib"), ("ctxlen", .int 0)])]
    let whole : Fields := [("vcs", .str "git"),
      ("diff_options", .obj [("ctxlen", .int 0), ("algorithm", .str "difflib")]),
      ("format_on_save", .bool true)]
    (∃ above, mergeLayers middle highest = .ok above ∧ mergeLayers lowest above = .ok whole) ∧
      ∃ base provided, (Grouping.merge (.layer lowest) (.layer middle)).merged = .ok base ∧
        (Grouping.merge (.layer middle) (.layer highest)).merged = .ok provided ∧
        Registry.attach [] "a.c" rangeClient base highest =
          Registry.attach [] "a.c" rangeClient lowest provided := by
  intro lowest middle highest whole
  have hlowest : IsLayer lowest := ⟨_, by decide +kernel, rfl, by decide +kernel⟩
  have hmiddle : IsLayer middle := ⟨_, by decide +kernel, rfl, by decide +kernel⟩
  have hhighest : IsLayer highest := ⟨_, by decide +kernel, rfl, by decide +kernel⟩
  obtain ⟨⟨below, above, whole', hbelow, habove, hwhole, hwhole'⟩, -, -, hgroups⟩ :=
    layers_merge_in_any_grouping hlowest hmiddle hhighest
  have hleft : (mergeLayers lowest middle >>= (mergeLayers · highest)) = .ok whole := rfl
  rw [hbelow] at hleft
  obtain rfl : whole' = whole := Except.ok.inj (hwhole.symm.trans hleft)
  have hlayers : ∀ fs ∈ [lowest, middle, highest], IsLayer fs :=
    List.forall_mem_cons.mpr ⟨hlowest, List.forall_mem_cons.mpr
      ⟨hmiddle, List.forall_mem_singleton.mpr hhighest⟩⟩
  obtain ⟨base, provided, base', provided', hbase, hprovided, hbase', hprovided', hattach⟩ :=
    hgroups (.merge (.layer lowest) (.layer middle)) (.layer highest) (.layer lowest)
      (.merge (.layer middle) (.layer highest)) rfl hlayers
  cases hprovided
  cases hbase'
  exact ⟨⟨above, habove, hwhole'⟩, base, provided', hbase, hprovided', hattach [] "a.c" rangeClient⟩

end Hunkwise
