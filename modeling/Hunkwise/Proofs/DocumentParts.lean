import Hunkwise.Json.Writer
import Hunkwise.Proofs.Tables

/-! What holds all through a document: of itself, of what lies in it, and so on down. -/

namespace Hunkwise.Json

variable {p q : Json → Prop} {v w : Json} {fs : Fields} {key : Text}

def parts : Json → List Json
  | .arr items => items
  | .obj fs => fs.map Prod.snd
  | _ => []

theorem itemsHeight_le {items : List Json} {n : Nat} :
    itemsHeight items ≤ n ↔ ∀ w ∈ items, w.height ≤ n := by
  induction items with
  | nil => simp [itemsHeight]
  | cons w items ih => rw [itemsHeight, Nat.max_le, ih, List.forall_mem_cons]

theorem fieldsHeight_le {n : Nat} : fieldsHeight fs ≤ n ↔ ∀ e ∈ fs, e.2.height ≤ n := by
  induction fs with
  | nil => simp [fieldsHeight]
  | cons e fs ih => rw [fieldsHeight, Nat.max_le, ih, List.forall_mem_cons]

theorem height_pos (v : Json) : 1 ≤ v.height := by
  cases v <;> simp [height]

theorem height_arr_le {n : Nat} (hn : 1 ≤ n) :
    (arr items).height ≤ n ↔ ∀ w ∈ items, w.height ≤ n - 1 := by
  rw [height, ← itemsHeight_le]
  omega

theorem height_obj_le {n : Nat} (hn : 1 ≤ n) :
    (obj fs).height ≤ n ↔ ∀ e ∈ fs, e.2.height ≤ n - 1 := by
  rw [height, ← fieldsHeight_le]
  omega

theorem height_lt_of_mem_parts (h : w ∈ v.parts) : w.height < v.height := by
  cases v with
  | arr items => exact Nat.lt_succ_of_le (itemsHeight_le.mp (Nat.le_refl _) w h)
  | obj fs =>
    obtain ⟨e, he, rfl⟩ := List.mem_map.mp h
    exact Nat.lt_succ_of_le (fieldsHeight_le.mp (Nat.le_refl _) e he)
  | _ => cases h

theorem height_object_le {fs : Fields} {n : Nat} (h : ∀ e ∈ fs, e.2.height ≤ n) :
    (Json.object fs).height ≤ n + 1 :=
  Nat.succ_le_succ (fieldsHeight_le.mpr fun e he => (Table.mem_update he).elim nofun (h e))

/-- Induction over a document, with a hypothesis for all that lies in it. -/
theorem induction_parts {motive : Json → Prop} (step : ∀ v, (∀ w ∈ v.parts, motive w) → motive v)
    (v : Json) : motive v := by
  induction h : v.height using Nat.strongRecOn generalizing v with
  | ind n ih => exact step v fun w hw => ih w.height (h ▸ height_lt_of_mem_parts hw) w rfl

/-- Holds of a document and of all values inside it. -/
inductive Each (p : Json → Prop) : Json → Prop
  | intro {v : Json} (here : p v) (inside : ∀ w ∈ v.parts, Each p w) : Each p v

theorem Each.here : Each p v → p v
  | .intro here _ => here

theorem Each.inside : Each p v → ∀ w ∈ v.parts, Each p w
  | .intro _ inside => inside

theorem Each.mono (h : Each p v) (hpq : ∀ w, p w → q w) : Each q v := by
  induction h with
  | intro here _ ih => exact .intro (hpq _ here) ih

theorem Each.and (hp : Each p v) (hq : Each q v) : Each (fun w => p w ∧ q w) v := by
  induction hp with
  | intro here inside ih => exact .intro ⟨here, hq.here⟩ fun w hw => ih w hw (hq.inside w hw)

theorem each_scalar (h : p v) (hparts : v.parts = []) : Each p v :=
  .intro h fun w hw => by rw [hparts] at hw; cases hw

theorem each_arr {items : List Json} : Each p (.arr items) ↔ p (.arr items) ∧ ∀ w ∈ items, Each p w :=
  ⟨fun h => ⟨h.here, h.inside⟩, fun h => .intro h.1 h.2⟩

theorem each_obj : Each p (.obj fs) ↔ p (.obj fs) ∧ ∀ e ∈ fs, Each p e.2 :=
  ⟨fun h => ⟨h.here, fun e he => h.inside e.2 (List.mem_map_of_mem he)⟩,
    fun h => .intro h.1 fun w hw => by
      obtain ⟨e, he, rfl⟩ := List.mem_map.mp hw
      exact h.2 e he⟩

theorem Each.get? (h : Each p (.obj fs)) (hv : Table.get? fs key = some v) : Each p v :=
  (each_obj.mp h).2 _ (Table.mem_of_get? hv)

mutual

def every (p : Json → Bool) : Json → Bool
  | .arr items => p (.arr items) && everyItem p items
  | .obj fs => p (.obj fs) && everyField p fs
  | v => p v

def everyItem (p : Json → Bool) : List Json → Bool
  | [] => true
  | v :: vs => v.every p && everyItem p vs

def everyField (p : Json → Bool) : List (Text × Json) → Bool
  | [] => true
  | (_, v) :: fs => v.every p && everyField p fs

end

theorem everyItem_eq (p : Json → Bool) (items : List Json) : everyItem p items = items.all (every p) := by
  induction items with
  | nil => rfl
  | cons v vs ih => rw [everyItem, ih, List.all_cons]

theorem everyField_eq (p : Json → Bool) (fs : List (Text × Json)) :
    everyField p fs = fs.all fun e => e.2.every p := by
  induction fs with
  | nil => rfl
  | cons e fs ih => rw [everyField, ih, List.all_cons]

theorem every_eq_true {p : Json → Bool} : v.every p = true ↔ Each (fun w => p w = true) v := by
  induction v using induction_parts with
  | step v ih =>
    cases v with
    | arr items =>
      rw [every, Bool.and_eq_true, everyItem_eq, List.all_eq_true, each_arr]
      exact and_congr_right fun _ => forall₂_congr fun w hw => ih w hw
    | obj fs =>
      rw [every, Bool.and_eq_true, everyField_eq, List.all_eq_true, each_obj]
      exact and_congr_right fun _ => forall₂_congr fun e he => ih e.2 (List.mem_map_of_mem he)
    | _ => exact ⟨fun h => each_scalar h rfl, Each.here⟩

instance [DecidablePred p] (v : Json) : Decidable (Each p v) :=
  decidable_of_iff (v.every (fun w => decide (p w)) = true) (by simp only [every_eq_true, decide_eq_true_eq])

theorem each_update {base upper : Fields} (hbase : Each p (.obj base)) (hupper : Each p (.obj upper))
    (h : p (.obj (base.update upper))) : Each p (.obj (base.update upper)) :=
  each_obj.mpr ⟨h, fun e he =>
    (Table.mem_update he).elim ((each_obj.mp hbase).2 e) ((each_obj.mp hupper).2 e)⟩

/-- Its keys are distinct, if it is an object. -/
def Keyed : Json → Prop
  | .obj fs => Table.Distinct fs
  | _ => True

/-- Its texts, a text itself or the keys of an object, are such. -/
def Texts (text : Text → Prop) : Json → Prop
  | .str s => text s
  | .obj fs => ∀ key ∈ Table.keys fs, text key
  | _ => True

/-- What a file can hold and give back: a number that is short, texts of a kind, distinct keys. -/
structure Kept (text : Text → Prop) (v : Json) : Prop where
  short : v.isLong = false
  keyed : v.Keyed
  texts : v.Texts text

instance : DecidablePred Keyed
  | .obj _ => inferInstanceAs (Decidable (List.Nodup _))
  | .null | .bool _ | .int _ | .float _ | .str _ | .arr _ => inferInstanceAs (Decidable True)

variable {text : Text → Prop}

instance [DecidablePred text] : DecidablePred (Texts text)
  | .str s => inferInstanceAs (Decidable (text s))
  | .obj fs => inferInstanceAs (Decidable (∀ key ∈ Table.keys fs, text key))
  | .null | .bool _ | .int _ | .float _ | .arr _ => inferInstanceAs (Decidable True)

instance [DecidablePred text] : DecidablePred (Kept text) := fun v =>
  decidable_of_iff (v.isLong = false ∧ v.Keyed ∧ v.Texts text)
    ⟨fun h => ⟨h.1, h.2.1, h.2.2⟩, fun h => ⟨h.short, h.keyed, h.texts⟩⟩

theorem Kept.mono {text' : Text → Prop} (h : Kept text v) (htext : ∀ s, text s → text' s) :
    Kept text' v where
  short := h.short
  keyed := h.keyed
  texts := by
    cases v with
    | str s => exact htext s h.texts
    | obj fs => exact fun key hkey => htext key (h.texts key hkey)
    | _ => trivial

theorem Kept.obj (hkeyed : Table.Distinct fs) (htexts : ∀ key ∈ Table.keys fs, text key) :
    Kept text (.obj fs) := ⟨rfl, hkeyed, htexts⟩

theorem Kept.arr (items : List Json) : Kept text (.arr items) := ⟨rfl, trivial, trivial⟩

theorem each_kept_str {s : Text} (h : text s) : Each (Kept text) (.str s) :=
  each_scalar ⟨rfl, trivial, h⟩ rfl

theorem each_kept_update {base upper : Fields} (hbase : Each (Kept text) (.obj base))
    (hupper : Each (Kept text) (.obj upper)) : Each (Kept text) (.obj (base.update upper)) := by
  refine each_update hbase hupper (.obj (Table.Distinct.update hbase.here.keyed upper) fun key hkey => ?_)
  exact (Table.mem_keys_update.mp hkey).elim (hbase.here.texts key) (hupper.here.texts key)

theorem each_kept_set (h : Each (Kept text) (.obj fs)) (hkey : text key) (hv : Each (Kept text) v) :
    Each (Kept text) (.obj (Table.set fs key v)) := by
  have hone : Each (Kept text) (.obj [(key, v)]) := each_obj.mpr ⟨.obj ?_ ?_, ?_⟩
  · exact each_kept_update h hone
  · exact List.nodup_cons.mpr ⟨List.not_mem_nil, List.nodup_nil⟩
  · exact fun k hk => List.mem_singleton.mp hk ▸ hkey
  · exact fun e he => List.mem_singleton.mp he ▸ hv

theorem allItems_eq (text : Text → Bool) (number : Float → Bool) (items : List Json) :
    allItems text number items = items.all (all text number) := by
  induction items with
  | nil => rfl
  | cons v vs ih => rw [allItems, ih, List.all_cons]

theorem allFields_eq (text : Text → Bool) (number : Float → Bool) (fs : List (Text × Json)) :
    allFields text number fs = fs.all fun e => text e.1 && e.2.all text number := by
  induction fs with
  | nil => rfl
  | cons e fs ih => rw [allFields, ih, List.all_cons]

theorem each_texts_of_isEncodable (h : v.isEncodable = true) :
    Each (Texts fun s => s.isEncodable = true) v := by
  unfold isEncodable at h
  induction v using induction_parts with
  | step v ih =>
    cases v with
    | str s => exact each_scalar h rfl
    | arr items =>
      rw [all, allItems_eq, List.all_eq_true] at h
      exact .intro trivial fun w hw => ih w hw (h w hw)
    | obj fs =>
      rw [all, allFields_eq, List.all_eq_true] at h
      have hfield (e : Text × Json) (he : e ∈ fs) := (Bool.and_eq_true _ _).mp (h e he)
      refine each_obj.mpr ⟨fun key hkey => ?_, fun e he => ?_⟩
      · obtain ⟨e, he, rfl⟩ := List.mem_map.mp hkey
        exact (hfield e he).1
      · exact ih e.2 (List.mem_map_of_mem he) (hfield e he).2
    | _ => exact each_scalar trivial rfl

end Hunkwise.Json
