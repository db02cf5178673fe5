import Hunkwise.Table

/-! Tables with distinct keys. They are told apart by the order of their keys and by what every key
gives, so an update can be followed key by key: what is new comes after what was there, and the upper
table wins. -/

namespace Hunkwise.Table

variable {κ ν : Type} [DecidableEq κ] {t u base upper : Table κ ν} {key other : κ} {v : ν}

def keys (t : Table κ ν) : List κ := t.map Prod.fst

def Distinct (t : Table κ ν) : Prop := t.keys.Nodup

instance (t : Table κ ν) : Decidable (Distinct t) := inferInstanceAs (Decidable t.keys.Nodup)

omit [DecidableEq κ] in
theorem distinct_cons {e : κ × ν} : Distinct (e :: t) ↔ e.1 ∉ t.keys ∧ Distinct t := List.nodup_cons

theorem get?_eq_none : t.get? key = none ↔ key ∉ t.keys := by
  induction t with
  | nil => exact ⟨fun _ => List.not_mem_nil, fun _ => rfl⟩
  | cons e t ih =>
    obtain ⟨k, w⟩ := e
    by_cases hk : k = key
    · simp [get?, keys, hk]
    · rw [get?, if_neg hk, ih]
      exact not_congr (List.mem_cons.trans (or_iff_right (Ne.symm hk))).symm

theorem isSome_get? : (t.get? key).isSome = true ↔ key ∈ t.keys := by
  rw [Option.isSome_iff_ne_none, Ne, get?_eq_none, Decidable.not_not]

theorem mem_of_get? (h : t.get? key = some v) : (key, v) ∈ t := by
  induction t with
  | nil => cases h
  | cons e t ih =>
    obtain ⟨k, w⟩ := e
    by_cases hk : k = key
    · rw [get?, if_pos hk] at h
      cases h
      rw [hk]
      exact List.mem_cons_self
    · rw [get?, if_neg hk] at h
      exact List.mem_cons_of_mem _ (ih h)

theorem get?_of_mem (h : Distinct t) (hmem : (key, v) ∈ t) : t.get? key = some v := by
  induction t with
  | nil => cases hmem
  | cons e t ih =>
    obtain ⟨k, w⟩ := e
    obtain ⟨hk, ht⟩ := distinct_cons.mp h
    rcases List.mem_cons.mp hmem with heq | hmem
    · cases heq
      rw [get?, if_pos rfl]
    · have hkey : key ∈ keys t := List.mem_map_of_mem hmem
      have hne : k ≠ key := fun h => hk (h ▸ hkey)
      rw [get?, if_neg hne, ih ht hmem]

omit [DecidableEq κ] in
theorem keys_map {ν' : Type} (f : ν → ν') (t : Table κ ν) :
    keys (t.map fun (k, v) => (k, f v)) = t.keys := by
  rw [keys, List.map_map]
  rfl

theorem get?_map {ν' : Type} (f : ν → ν') (t : Table κ ν) (key : κ) :
    get? (t.map fun (k, v) => (k, f v)) key = (t.get? key).map f := by
  induction t with
  | nil => rfl
  | cons e t ih =>
    obtain ⟨k, w⟩ := e
    by_cases hk : k = key <;> simp [get?, hk, ih]

theorem keys_set (t : Table κ ν) (key : κ) (v : ν) :
    (t.set key v).keys = if key ∈ t.keys then t.keys else t.keys ++ [key] := by
  induction t with
  | nil => rfl
  | cons e t ih =>
    obtain ⟨k, w⟩ := e
    by_cases hk : k = key
    · simp [set, keys, hk]
    · have hkey : key ∈ keys ((k, w) :: t) ↔ key ∈ keys t :=
        List.mem_cons.trans (or_iff_right (Ne.symm hk))
      simp only [set, if_neg hk, hkey]
      show k :: keys (set t key v) = if key ∈ keys t then k :: keys t else k :: keys t ++ [key]
      rw [ih]
      split <;> rfl

theorem Distinct.set (h : Distinct t) (key : κ) (v : ν) : Distinct (t.set key v) := by
  rw [Distinct, keys_set]
  split
  · exact h
  · next hkey => exact List.nodup_append.mpr ⟨h, List.nodup_cons.mpr ⟨List.not_mem_nil, List.nodup_nil⟩, by
      rintro a ha b hb rfl
      exact hkey (List.mem_singleton.mp hb ▸ ha)⟩

theorem update_cons (base : Table κ ν) (e : κ × ν) (upper : Table κ ν) :
    base.update (e :: upper) = (base.set e.1 e.2).update upper := rfl

theorem Distinct.update (h : Distinct base) (upper : Table κ ν) : Distinct (base.update upper) := by
  induction upper generalizing base with
  | nil => exact h
  | cons e upper ih => exact ih (h.set e.1 e.2)

omit [DecidableEq κ] in
theorem distinct_nil : Distinct ([] : Table κ ν) := List.nodup_nil

section Filtered

variable {p : κ → Bool}

omit [DecidableEq κ] in
theorem Distinct.filter (h : Distinct t) (p : κ → Bool) : Distinct (t.filter fun e => p e.1) :=
  List.Sublist.nodup (List.filter_sublist.map Prod.fst) h

omit [DecidableEq κ] in
theorem keys_filter (p : κ → Bool) (t : Table κ ν) :
    keys (t.filter fun e => p e.1) = t.keys.filter p := by
  rw [keys, keys, List.filter_map]
  rfl

theorem get?_filter_eq_some (h : Distinct t) :
    get? (t.filter fun e => p e.1) key = some v ↔ p key = true ∧ t.get? key = some v := by
  constructor
  · intro hget
    obtain ⟨hmem, hp⟩ := List.mem_filter.mp (mem_of_get? hget)
    exact ⟨hp, get?_of_mem h hmem⟩
  · rintro ⟨hp, hget⟩
    apply get?_of_mem (h.filter p)
    exact List.mem_filter.mpr ⟨mem_of_get? hget, hp⟩

theorem Distinct.without (h : Distinct t) (key : κ) : Distinct (t.without key) :=
  h.filter fun k => k ≠ key

theorem keys_without (t : Table κ ν) (key : κ) :
    (t.without key).keys = t.keys.filter fun k => k ≠ key :=
  keys_filter (fun k => k ≠ key) t

end Filtered

theorem get?_update (h : Distinct upper) (base : Table κ ν) (key : κ) :
    (base.update upper).get? key = (upper.get? key).or (base.get? key) := by
  induction upper generalizing base with
  | nil => rfl
  | cons e upper ih =>
    obtain ⟨k, w⟩ := e
    obtain ⟨hk, hupper⟩ := distinct_cons.mp h
    rw [update_cons, ih hupper, get?]
    by_cases hkey : k = key
    · subst hkey
      rw [get?_eq_none.mpr hk, get?_set_self, if_pos rfl]
      rfl
    · rw [get?_set_of_ne (Ne.symm hkey), if_neg hkey]

theorem get?_update_of_not_mem (h : key ∉ upper.keys) (base : Table κ ν) :
    (base.update upper).get? key = base.get? key := by
  induction upper generalizing base with
  | nil => rfl
  | cons e upper ih =>
    obtain ⟨hk, hupper⟩ := not_or.mp (mt List.mem_cons.mpr h)
    rw [update_cons, ih hupper, get?_set_of_ne hk]

theorem mem_update {e : κ × ν} (h : e ∈ base.update upper) : e ∈ base ∨ e ∈ upper := by
  induction upper generalizing base with
  | nil => exact .inl h
  | cons d upper ih =>
    rcases ih h with h | h
    · rcases mem_set h with h | h
      · exact .inr (h ▸ List.mem_cons_self)
      · exact .inl h
    · exact .inr (List.mem_cons_of_mem _ h)

/-- What is new comes after what was there, in its own order. -/
theorem keys_update (h : Distinct upper) (base : Table κ ν) :
    (base.update upper).keys = base.keys ++ upper.keys.filter (· ∉ base.keys) := by
  induction upper generalizing base with
  | nil => exact (List.append_nil _).symm
  | cons e upper ih =>
    obtain ⟨k, w⟩ := e
    obtain ⟨hk, hupper⟩ := distinct_cons.mp h
    rw [update_cons, ih hupper, keys_set]
    show _ = base.keys ++ (k :: keys upper).filter (· ∉ base.keys)
    split
    · next hmem => rw [List.filter_cons_of_neg (by simpa using hmem)]
    · next hmem =>
      rw [List.filter_cons_of_pos (by simpa using hmem), List.append_assoc, List.singleton_append]
      congr 2
      refine List.filter_congr fun a ha => ?_
      have hne : a ≠ k := fun h => hk (h ▸ ha)
      simp [hne]

theorem mem_keys_update : key ∈ (base.update upper).keys ↔ key ∈ base.keys ∨ key ∈ upper.keys := by
  induction upper generalizing base with
  | nil => exact ⟨.inl, fun h => h.resolve_right List.not_mem_nil⟩
  | cons e upper ih =>
    rw [update_cons, ih, ← isSome_get?]
    by_cases hkey : key = e.1
    · subst hkey
      rw [get?_set_self]
      exact ⟨fun _ => .inr List.mem_cons_self, fun _ => .inl rfl⟩
    · rw [get?_set_of_ne hkey, isSome_get?]
      exact or_congr_right (List.mem_cons.trans (or_iff_right hkey)).symm

/-- Tables with the same keys in the same order are told apart by what the keys give. -/
theorem ext_get? (h : Distinct t) (hkeys : t.keys = u.keys) (hget : ∀ key, t.get? key = u.get? key) :
    t = u := by
  induction t generalizing u with
  | nil => exact (List.map_eq_nil_iff.mp hkeys.symm).symm
  | cons e t ih =>
    obtain ⟨k, w⟩ := e
    cases u with
    | nil => cases hkeys
    | cons d u =>
      obtain ⟨k', w'⟩ := d
      obtain ⟨rfl, htail⟩ : k = k' ∧ keys t = keys u := List.cons.inj hkeys
      obtain ⟨hk, ht⟩ := distinct_cons.mp h
      have hhead := hget k
      rw [get?, get?, if_pos rfl, if_pos rfl] at hhead
      cases hhead
      refine congrArg _ (ih ht htail fun key => ?_)
      have hrest := hget key
      by_cases hkey : k = key
      · subst hkey
        rw [get?_eq_none.mpr hk, get?_eq_none.mpr fun h => hk (htail.symm ▸ h)]
      · rwa [get?, get?, if_neg hkey, if_neg hkey] at hrest

/-- An update with a table that starts with the same keys gives that table. -/
theorem update_of_keys_prefix (h : Distinct upper) (hkeys : base.keys <+: upper.keys) :
    base.update upper = upper := by
  obtain ⟨more, hmore⟩ := hkeys
  have hdistinct : (base.keys ++ more).Nodup := hmore ▸ h
  obtain ⟨hbase, -, hdisjoint⟩ := List.nodup_append.mp hdistinct
  refine ext_get? (Distinct.update hbase upper) ?_ fun key => ?_
  · rw [keys_update h, ← hmore, List.filter_append, List.filter_eq_nil_iff.mpr (by simp),
      List.nil_append]
    congr 1
    refine List.filter_eq_self.mpr fun a ha => ?_
    simpa using fun hmem => hdisjoint a hmem a ha rfl
  · rw [get?_update h]
    cases hkey : upper.get? key with
    | some w => rfl
    | none =>
      refine get?_eq_none.mpr fun hmem => get?_eq_none.mp hkey ?_
      rw [← hmore]
      exact List.mem_append_left more hmem

theorem update_nil (h : Distinct upper) : update [] upper = upper :=
  update_of_keys_prefix h List.nil_prefix

/-- Tables that are laid over one another can be put together from either end. -/
theorem update_assoc (ht : Distinct t) (hu : Distinct u) (hupper : Distinct upper) :
    (t.update u).update upper = t.update (u.update upper) := by
  have huu : Distinct (u.update upper) := hu.update upper
  refine ext_get? ((ht.update u).update upper) ?_ fun key => ?_
  · rw [keys_update hupper, keys_update hu, keys_update huu, keys_update hupper, List.filter_append,
      List.filter_filter, List.append_assoc]
    congr 2
    refine List.filter_congr fun key _ => ?_
    rw [← Bool.decide_and, decide_eq_decide, ← keys_update hu, mem_keys_update, not_or]
  · rw [get?_update hupper, get?_update hu, get?_update huu, get?_update hupper, Option.or_assoc]

/-- The last entry of a key wins. -/
theorem get?_update_nil (t : Table κ ν) (key : κ) :
    (update [] t).get? key = ((t.filter fun e => e.1 = key).getLast?).map Prod.snd := by
  suffices h : ∀ base : Table κ ν, (update base t).get? key =
      (((t.filter fun e => e.1 = key).getLast?).map Prod.snd).or (base.get? key) by
    simpa [get?] using h []
  induction t with
  | nil => exact fun _ => rfl
  | cons e t ih =>
    intro base
    rw [update_cons, ih]
    by_cases hkey : e.1 = key
    · subst hkey
      rw [List.filter_cons_of_pos (by simp), get?_set_self, List.getLast?_cons]
      cases (t.filter fun e' => e'.1 = e.1).getLast? <;> rfl
    · rw [List.filter_cons_of_neg (by simpa using hkey), get?_set_of_ne (Ne.symm hkey)]

theorem filter_set {p : κ → Bool} (h : p key = false) (t : Table κ ν) (v : ν) :
    (t.set key v).filter (fun e => p e.1) = t.filter fun e => p e.1 := by
  induction t with
  | nil => simp [set, h]
  | cons e t ih =>
    obtain ⟨k, w⟩ := e
    by_cases hk : k = key
    · subst hk
      simp [set, h]
    · rw [set, if_neg hk, List.filter_cons, List.filter_cons, ih]

theorem filter_update {p : κ → Bool} (h : ∀ key ∈ upper.keys, p key = false) (base : Table κ ν) :
    (base.update upper).filter (fun e => p e.1) = base.filter fun e => p e.1 := by
  induction upper generalizing base with
  | nil => rfl
  | cons e upper ih =>
    rw [update_cons, ih fun key hkey => h key (List.mem_cons_of_mem _ hkey),
      filter_set (h e.1 List.mem_cons_self)]

theorem update_self (h : Distinct t) : t.update t = t := update_of_keys_prefix h List.prefix_rfl

theorem set_of_get? (h : t.get? key = some v) : t.set key v = t := by
  induction t with
  | nil => cases h
  | cons e t ih =>
    obtain ⟨k, w⟩ := e
    by_cases hk : k = key
    · rw [get?, if_pos hk] at h
      cases h
      rw [set, if_pos hk]
    · rw [get?, if_neg hk] at h
      rw [set, if_neg hk, ih h]

theorem keys_set_of_mem (h : key ∈ t.keys) (v : ν) : (t.set key v).keys = t.keys := by
  rw [keys_set, if_pos h]

end Hunkwise.Table
