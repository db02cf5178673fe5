/-! Tables: keys with their values, in the order in which the keys came. Setting a key that is there
keeps its place. -/

namespace Hunkwise

abbrev Table (κ ν : Type) := List (κ × ν)

namespace Table

variable {κ ν : Type} [DecidableEq κ]

def get? : Table κ ν → κ → Option ν
  | [], _ => none
  | (k, v) :: t, key => if k = key then some v else get? t key

/-- Gives `key` the value `v`: in its place if it is there, at the end otherwise. -/
def set : Table κ ν → κ → ν → Table κ ν
  | [], key, v => [(key, v)]
  | (k, w) :: t, key, v => if k = key then (k, v) :: t else (k, w) :: set t key v

@[simp] theorem get?_set_self (t : Table κ ν) (key : κ) (v : ν) :
    (t.set key v).get? key = some v := by
  induction t with
  | nil => simp [set, get?]
  | cons e t ih =>
    obtain ⟨k, w⟩ := e
    by_cases h : k = key <;> simp [set, get?, h, ih]

theorem get?_set_of_ne {key other : κ} (h : other ≠ key) (t : Table κ ν) (v : ν) :
    (t.set key v).get? other = t.get? other := by
  induction t with
  | nil => simp [set, get?, h.symm]
  | cons e t ih =>
    obtain ⟨k, w⟩ := e
    by_cases hk : k = key
    · subst hk; simp [set, get?, h.symm]
    · by_cases ho : k = other
      · subst ho; simp [set, get?, hk]
      · simp [set, get?, hk, ho, ih]

theorem isSome_get?_set {other : κ} {t : Table κ ν} (h : (t.get? other).isSome = true) (key : κ)
    (v : ν) : ((t.set key v).get? other).isSome = true := by
  by_cases ho : other = key
  · rw [ho, get?_set_self]
    rfl
  · rwa [get?_set_of_ne ho]

theorem mem_set {t : Table κ ν} {key : κ} {v : ν} {e : κ × ν} (h : e ∈ t.set key v) :
    e = (key, v) ∨ e ∈ t := by
  induction t with
  | nil => exact .inl (List.mem_singleton.mp h)
  | cons d t ih =>
    obtain ⟨k, w⟩ := d
    by_cases hk : k = key
    · subst hk
      rw [set, if_pos rfl] at h
      exact (List.mem_cons.mp h).imp_right (List.mem_cons_of_mem _)
    · rw [set, if_neg hk] at h
      rcases List.mem_cons.mp h with rfl | h
      · exact .inr List.mem_cons_self
      · exact (ih h).imp_right (List.mem_cons_of_mem _)

def update (base upper : Table κ ν) : Table κ ν := upper.foldl (fun t (k, v) => set t k v) base

def without (t : Table κ ν) (key : κ) : Table κ ν := t.filter fun (k, _) => k ≠ key

theorem get?_without_self (t : Table κ ν) (key : κ) : (t.without key).get? key = none := by
  induction t with
  | nil => rfl
  | cons e t ih =>
    obtain ⟨k, w⟩ := e
    unfold without at ih ⊢
    by_cases hk : k = key
    · rw [List.filter_cons_of_neg (by simpa using hk), ih]
    · rw [List.filter_cons_of_pos (by simpa using hk), get?, if_neg hk, ih]

theorem get?_without_of_ne {key other : κ} (h : other ≠ key) (t : Table κ ν) :
    (t.without key).get? other = t.get? other := by
  induction t with
  | nil => rfl
  | cons e t ih =>
    obtain ⟨k, w⟩ := e
    unfold without at ih ⊢
    by_cases hk : k = key
    · rw [List.filter_cons_of_neg (by simpa using hk), ih, get?, if_neg (hk ▸ h.symm)]
    · rw [List.filter_cons_of_pos (by simpa using hk), get?, get?, ih]

end Table

end Hunkwise
