import Hunkwise.Attachment.Config
import Hunkwise.Proofs.Tables

/-! Checked objects. The check of an object is good exactly when the checks of its fields are, and it
then gives what these gave. -/

namespace Hunkwise

namespace Checked

variable {α β : Type} {x : Checked α} {a : α} {b : β}

theorem seq_eq_good {f : Checked (α → β)} :
    f <*> x = .good b ↔ ∃ g a, f = .good g ∧ x = .good a ∧ g a = b := by
  constructor
  · intro h
    cases f with
    | bad ps => cases x <;> cases h
    | good g =>
      cases x with
      | bad ps => cases h
      | good a => exact ⟨g, a, rfl, rfl, Checked.good.inj h⟩
  · rintro ⟨g, a, rfl, rfl, rfl⟩
    rfl

theorem map_eq_good {f : α → β} : f <$> x = .good b ↔ ∃ a, x = .good a ∧ f a = b := by
  constructor
  · intro h
    obtain ⟨g, a, hg, ha, hb⟩ := seq_eq_good.mp h
    cases hg
    exact ⟨a, ha, hb⟩
  · rintro ⟨a, rfl, rfl⟩
    rfl

theorem map_inv {f : α → β} (h : x.map f = .good b) : ∃ a, x = .good a ∧ f a = b := by
  cases x with
  | good a => exact ⟨a, rfl, good.inj h⟩
  | bad ps => cases h

theorem seqLeft_eq_good {y : Checked β} : x <* y = .good a ↔ x = .good a ∧ ∃ b, y = .good b := by
  constructor
  · intro h
    obtain ⟨g, b, hg, hb, ha⟩ := seq_eq_good.mp h
    obtain ⟨a', ha', rfl⟩ := map_eq_good.mp hg
    exact ⟨ha'.trans (congrArg good ha), b, hb⟩
  · rintro ⟨rfl, b, rfl⟩
    rfl

theorem within_eq_good {step : Step} : x.within step = .good a ↔ x = .good a := by
  cases x with
  | good a' => exact Iff.rfl
  | bad ps => exact ⟨nofun, nofun⟩

theorem verdict_eq_ok {title : Text} : x.verdict title = .ok a ↔ x = .good a := by
  cases x with
  | good a' => exact ⟨fun h => congrArg good (Except.ok.inj h), fun h => congrArg _ (good.inj h)⟩
  | bad ps => exact ⟨nofun, nofun⟩

end Checked

namespace Check

open Checked

variable {α : Type} {c : Check α} {fs : Fields} {name : Text} {a missing : α}

theorem optional_eq_good :
    optional fs name missing c = .good a ↔ (fs.get? name).elim (.good missing) c = .good a := by
  unfold optional
  cases fs.get? name with
  | none => exact Iff.rfl
  | some v => exact within_eq_good

theorem required_eq_good :
    required fs name c = .good a ↔ ∃ v, fs.get? name = some v ∧ c v = .good a := by
  unfold required
  rw [within_eq_good]
  cases fs.get? name with
  | none => exact ⟨nofun, nofun⟩
  | some v => exact ⟨fun h => ⟨v, rfl, h⟩, fun ⟨w, hw, h⟩ => by cases hw; exact h⟩

theorem mapping_eq_good {v : Json} : mapping v = .good fs ↔ v = .obj fs := by
  cases v with
  | obj fs' => exact ⟨fun h => congrArg Json.obj (good.inj h), fun h => congrArg good (Json.obj.inj h)⟩
  | _ => exact ⟨nofun, nofun⟩

theorem model_eq_good {title : Text} {body : Fields → Checked α} {v : Json} :
    model title body v = .good a ↔ ∃ fs, v = .obj fs ∧ body fs = .good a := by
  cases v with
  | obj fs => exact ⟨fun h => ⟨fs, rfl, h⟩, fun ⟨fs', hfs, h⟩ => by cases hfs; exact h⟩
  | _ => exact ⟨nofun, nofun⟩

theorem extras_eq_good {known : List Text} {u : Unit} :
    extras known fs = .good u ↔ ∀ key ∈ fs.keys, key ∈ known := by
  unfold extras
  have hnone : (fs.filter fun e => !known.contains e.1) = [] ↔ ∀ key ∈ fs.keys, key ∈ known := by
    simp [Table.keys, List.filter_eq_nil_iff]
  split
  · next hnil => exact ⟨fun _ => hnone.mp hnil, fun _ => rfl⟩
  · next hsome =>
    refine ⟨fun h => ?_, fun h => absurd (hnone.mpr h) hsome⟩
    cases h

/-- An object with known fields only. Their names are characters, so this alone is asked of them. -/
theorem closed_eq_good {known : List Text} {body : Checked α}
    (hknown : ∀ key ∈ known, key.isEncodable = true) :
    closed known fs body = .good a ↔ (∀ key ∈ fs.keys, key ∈ known) ∧ body = .good a := by
  unfold closed
  split
  · next hhalf =>
    obtain ⟨e, he, hkey⟩ := List.any_eq_true.mp hhalf
    refine ⟨nofun, fun h => ?_⟩
    have := hknown e.1 (h.1 e.1 (List.mem_map_of_mem he))
    simp [this] at hkey
  · rw [seqLeft_eq_good, and_comm]
    exact and_congr_left fun _ => ⟨fun ⟨_, h⟩ => extras_eq_good.mp h,
      fun h => ⟨(), extras_eq_good.mpr h⟩⟩

end Check

/-- What a check makes of a field that may be missing or null. -/
inductive Check.Reads {α : Type} (c : Check α) : Option Json → Option α → Prop where
  | missing : Reads c none none
  | null : Reads c (some .null) none
  | given {v : Json} {a : α} (hv : v ≠ .null) (ha : c v = .good a) : Reads c (some v) (some a)

section Reads

variable {α : Type} {c : Check α} {fs : Fields} {name : Text} {v : Json} {a : Option α}

theorem Check.reads_nullable (h : Check.nullable c v = .good a) : c.Reads (some v) a := by
  cases v with
  | null =>
    cases h
    exact .null
  | _ =>
    obtain ⟨a, ha, rfl⟩ := Checked.map_inv h
    exact .given nofun ha

theorem Check.reads_optional (h : Check.optional fs name none (Check.nullable c) = .good a) :
    c.Reads (fs.get? name) a := by
  rw [optional_eq_good] at h
  cases hget : fs.get? name with
  | none =>
    rw [hget] at h
    cases h
    exact .missing
  | some v =>
    rw [hget] at h
    exact reads_nullable h

end Reads

/-- What a check makes of the first layer that has a key, or a default where none has it. -/
def Check.Takes {α : Type} (c : Check α) (layers : List Fields) (key : Text) (missing a : α) : Prop :=
  (layers.findSome? (·.get? key)).elim (.good missing) c = .good a

section Takes

variable {α : Type} {c : Check α} {fs : Fields} {layers : List Fields} {key : Text} {missing a : α}

theorem Check.takes_one :
    c.Takes [fs] key missing a ↔ optional fs key missing c = .good a := by
  rw [optional_eq_good, Takes]
  cases h : fs.get? key <;> simp [h]

/-- Where the last layer gives the default, it need not be looked at. -/
theorem Check.Takes.of_filled {v : Json} (h : c.Takes [fs] key missing a)
    (hget : fs.get? key = (layers.findSome? (·.get? key)).or (some v)) (hv : c v = .good missing) :
    c.Takes layers key missing a := by
  rw [takes_one, optional_eq_good, hget] at h
  unfold Takes
  cases hfirst : layers.findSome? (·.get? key) with
  | some w => rwa [hfirst] at h
  | none =>
    rw [hfirst] at h
    exact hv.symm.trans h

/-- A layer below that gives the default changes nothing. -/
theorem Check.Takes.over {t : Fields} {v : Json} (h : c.Takes [t] key missing a)
    (hget : fs.get? key = (t.get? key).or (some v)) (hv : c v = .good missing) :
    c.Takes [fs] key missing a := by
  rw [takes_one, optional_eq_good] at h ⊢
  rw [hget]
  cases ht : t.get? key with
  | some w => rwa [ht] at h
  | none =>
    rw [ht] at h
    exact hv.trans h

end Takes

structure Diff.Options.TakenFrom (o : Diff.Options) (layers : List Fields) : Prop where
  method : (Check.choice .notChoice Diff.Method.names).Takes layers "algorithm" .patience o.method
  context : Check.natural.Takes layers "ctxlen" 0 o.context
  joinWithin : Check.natural.Takes layers "interhunkctxlen" 0 o.joinWithin
  slide : Check.bool.Takes layers "indent_heuristic" true o.slide
  ignoreReturn : Check.bool.Takes layers "ignore_cr_at_eol" true o.ignoreReturn

theorem Diff.Options.check_eq_good {fs : Fields} {o : Diff.Options} :
    Diff.Options.check (.obj fs) = .good o ↔
      (∀ key ∈ fs.keys, key ∈ Diff.Options.fieldNames) ∧ o.TakenFrom [fs] := by
  refine (Check.closed_eq_good (by decide +kernel)).trans (and_congr_right fun _ => ?_)
  constructor
  · intro h
    obtain ⟨_, e, h₄, he, rfl⟩ := Checked.seq_eq_good.mp h
    obtain ⟨_, d, h₃, hd, rfl⟩ := Checked.seq_eq_good.mp h₄
    obtain ⟨_, c, h₂, hc, rfl⟩ := Checked.seq_eq_good.mp h₃
    obtain ⟨_, b, h₁, hb, rfl⟩ := Checked.seq_eq_good.mp h₂
    obtain ⟨a, ha, rfl⟩ := Checked.map_eq_good.mp h₁
    exact ⟨Check.takes_one.mpr ha, Check.takes_one.mpr hb, Check.takes_one.mpr hc,
      Check.takes_one.mpr hd, Check.takes_one.mpr he⟩
  · intro h
    rw [Check.takes_one.mp h.method, Check.takes_one.mp h.context, Check.takes_one.mp h.joinWithin,
      Check.takes_one.mp h.slide, Check.takes_one.mp h.ignoreReturn]
    rfl

theorem AttachConfig.check_eq_good {fs : Fields} {config : AttachConfig} :
    AttachConfig.check (.obj fs) = .good config ↔
      (∀ key ∈ fs.keys, key ∈ AttachConfig.fieldNames) ∧
        Diff.Options.check.Takes [fs] "diff_options" {} config.diff ∧
        Check.bool.Takes [fs] "format_on_save" false config.onSave ∧
        Check.string.Takes [fs] "vcs" "git" config.vcs := by
  refine (Check.closed_eq_good (by decide +kernel)).trans (and_congr_right fun _ => ?_)
  constructor
  · intro h
    obtain ⟨_, c, h₂, hc, rfl⟩ := Checked.seq_eq_good.mp h
    obtain ⟨_, b, h₁, hb, rfl⟩ := Checked.seq_eq_good.mp h₂
    obtain ⟨a, ha, rfl⟩ := Checked.map_eq_good.mp h₁
    exact ⟨Check.takes_one.mpr ha, Check.takes_one.mpr hb, Check.takes_one.mpr hc⟩
  · rintro ⟨hdiff, honSave, hvcs⟩
    rw [Check.takes_one.mp hdiff, Check.takes_one.mp honSave, Check.takes_one.mp hvcs]
    rfl

end Hunkwise
