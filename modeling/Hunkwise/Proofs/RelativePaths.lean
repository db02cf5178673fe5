import Hunkwise.Proofs.LineText
import Hunkwise.Vcs.Basic
import Mathlib.Data.List.Induction

/-! Paths from the root of a repository. The entries of the root and of a path have a common start;
the relative path steps up out of what is left of the root and down into what is left of the path. So
it leads from the root to the path again, and it is the only name that the path has there. -/

namespace Hunkwise

theorem Text.not_mem_of_mem_splitAt {sep : Char} {s part : Text} (h : part ∈ s.splitAt sep) :
    .char sep ∉ part.letters := by
  obtain ⟨l, hl, rfl⟩ := List.mem_map.mp h
  exact not_mem_of_mem_cut hl

namespace Path

variable {start target dir names steps : List Text} {name rel : Text}

structure IsEntry (name : Text) : Prop where
  solid : .char '/' ∉ name.letters
  ne_empty : name ≠ ""
  ne_dot : name ≠ "."
  ne_up : name ≠ ".."

section Resolving

theorem step_entry (h : IsEntry name) (dir : List Text) : step dir name = dir ++ [name] := by
  rw [step, if_neg (not_or.mpr ⟨h.ne_empty, h.ne_dot⟩), if_neg h.ne_up]

theorem step_up (dir : List Text) : step dir ".." = dir.dropLast := by
  rw [step, if_neg (by decide), if_pos rfl]

theorem resolve_cons (dir : List Text) (name : Text) (names : List Text) :
    resolve dir (name :: names) = resolve (step dir name) names := rfl

theorem resolve_append (dir names steps : List Text) :
    resolve dir (names ++ steps) = resolve (resolve dir names) steps := List.foldl_append

theorem resolve_entries (h : ∀ name ∈ names, IsEntry name) (dir : List Text) :
    resolve dir names = dir ++ names := by
  induction names generalizing dir with
  | nil => exact (List.append_nil dir).symm
  | cons name names ih =>
    obtain ⟨hname, hnames⟩ := List.forall_mem_cons.mp h
    rw [resolve_cons, step_entry hname, ih hnames, List.append_assoc]
    rfl

/-- As many steps up as there are entries lead out of them. -/
theorem resolve_ups (dir up : List Text) :
    resolve (dir ++ up) (List.replicate up.length (".." : Text)) = dir := by
  induction up using List.reverseRecOn with
  | nil => exact List.append_nil dir
  | append_singleton up name ih =>
    rw [List.length_append, List.length_singleton, List.replicate_succ, resolve_cons, step_up,
      ← List.append_assoc, List.dropLast_concat, ih]

theorem entries_step (hdir : ∀ n ∈ dir, IsEntry n) (hname : .char '/' ∉ name.letters) :
    ∀ n ∈ step dir name, IsEntry n := by
  unfold step
  split
  · exact hdir
  · next hnone =>
    obtain ⟨hempty, hdot⟩ := not_or.mp hnone
    split
    · exact fun n hn => hdir n (List.dropLast_subset dir hn)
    · next hup =>
      rw [List.forall_mem_append]
      exact ⟨hdir, List.forall_mem_singleton.mpr ⟨hname, hempty, hdot, hup⟩⟩

theorem entries_resolve (hdir : ∀ n ∈ dir, IsEntry n)
    (hnames : ∀ name ∈ names, .char '/' ∉ name.letters) : ∀ n ∈ resolve dir names, IsEntry n := by
  induction names generalizing dir with
  | nil => exact hdir
  | cons name names ih =>
    obtain ⟨hname, hnames⟩ := List.forall_mem_cons.mp hnames
    exact ih (entries_step hdir hname) hnames

theorem entries_components (path workdir : Text) : ∀ n ∈ components path workdir, IsEntry n :=
  entries_resolve (List.forall_mem_nil _) fun _ h => Text.not_mem_of_mem_splitAt h

end Resolving

section Steps

/-- Two lists of entries part for good after their common start. -/
theorem exists_common (xs ys : List Text) :
    ∃ common up down, dropCommon xs ys = (up, down) ∧ xs = common ++ up ∧ ys = common ++ down ∧
      (up = [] ∨ up.head? ≠ down.head?) := by
  fun_induction dropCommon xs ys with
  | case1 xs y ys ih =>
    obtain ⟨common, up, down, hleft, rfl, rfl, hapart⟩ := ih
    exact ⟨y :: common, up, down, hleft, rfl, rfl, hapart⟩
  | case2 x xs y ys hxy => exact ⟨[], _, _, rfl, rfl, rfl, .inr fun h => hxy (Option.some.inj h)⟩
  | case3 xs ys hcons =>
    refine ⟨[], xs, ys, rfl, rfl, rfl, ?_⟩
    cases xs with
    | nil => exact .inl rfl
    | cons x xs =>
      cases ys with
      | nil => exact .inr nofun
      | cons y ys => exact absurd rfl (hcons x xs y ys rfl)

/-- The steps lead up out of what only the start has, if there is anything, and down into what only
the target has. -/
theorem exists_stepsFrom (start target : List Text) :
    ∃ common up down, start = common ++ up ∧ target = common ++ down ∧
      (up = [] ↔ start <+: target) ∧
      stepsFrom start target = List.replicate up.length (".." : Text) ++ down := by
  obtain ⟨common, up, down, hleft, rfl, rfl, hapart⟩ := exists_common start target
  refine ⟨common, up, down, rfl, rfl, ?_, by rw [stepsFrom, hleft]⟩
  rw [List.prefix_append_right_inj]
  constructor
  · rintro rfl
    exact List.nil_prefix
  · rintro ⟨rest, rfl⟩
    cases up with
    | nil => rfl
    | cons x up => exact absurd rfl (hapart.resolve_left (List.cons_ne_nil x up))

end Steps

section Rendering

theorem splitAt_render (hne : steps ≠ []) (h : ∀ name ∈ steps, .char '/' ∉ name.letters) :
    (render steps).splitAt '/' = steps := by
  rw [render, if_neg (by simpa using hne)]
  exact Text.splitAt_intercalate hne h

theorem splitAt_dot : ("." : Text).splitAt '/' = [("." : Text)] := by decide

theorem render_eq_dot (h : ∀ name ∈ steps, .char '/' ∉ name.letters) (hdot : ("." : Text) ∉ steps) :
    render steps = "." ↔ steps = [] := by
  constructor
  · intro hrender
    by_contra hne
    have hsteps := splitAt_render hne h
    rw [hrender, splitAt_dot] at hsteps
    exact hdot (hsteps ▸ List.mem_singleton_self _)
  · rintro rfl
    rfl

variable {down : List Text}

theorem solid_steps (hdown : ∀ n ∈ down, IsEntry n) (up : Nat) :
    ∀ n ∈ List.replicate up (".." : Text) ++ down, .char '/' ∉ n.letters :=
  List.forall_mem_append.mpr
    ⟨fun _ hn => List.eq_of_mem_replicate hn ▸ by decide, fun n hn => (hdown n hn).solid⟩

theorem dot_not_mem_steps (hdown : ∀ n ∈ down, IsEntry n) (up : Nat) :
    ("." : Text) ∉ List.replicate up (".." : Text) ++ down := by
  intro hmem
  rcases List.mem_append.mp hmem with hmem | hmem
  · exact absurd (List.eq_of_mem_replicate hmem) (by decide)
  · exact (hdown _ hmem).ne_dot rfl

end Rendering

/-- A path in its normal form: it stays where it is, or first steps up and then down from entry to
entry. -/
def IsNormal (rel : Text) : Prop :=
  rel = "." ∨ ∃ up names, rel.splitAt '/' = List.replicate up (".." : Text) ++ names ∧
    ∀ name ∈ names, IsEntry name

/-- `rel` is the way from `start` to `target`. It leaves `start` at its first step if it has to, and
only then. -/
structure IsWay (start target : List Text) (rel : Text) : Prop where
  normal : IsNormal rel
  arrives : resolve start (rel.splitAt '/') = target
  stays : rel = "." ↔ start = target
  leaves : (rel.splitAt '/').head? = some (".." : Text) ↔ ¬start <+: target

theorem isWay_render (hstart : ∀ n ∈ start, IsEntry n) (htarget : ∀ n ∈ target, IsEntry n) :
    IsWay start target (render (stepsFrom start target)) := by
  obtain ⟨common, up, down, rfl, rfl, hprefix, hsteps⟩ := exists_stepsFrom start target
  have hdown : ∀ n ∈ down, IsEntry n := fun n hn => htarget n (List.mem_append_right common hn)
  rw [hsteps]
  by_cases hnone : up = [] ∧ down = []
  · obtain ⟨rfl, rfl⟩ := hnone
    exact {
      normal := .inl rfl
      arrives := rfl
      stays := ⟨fun _ => rfl, fun _ => rfl⟩
      leaves := ⟨nofun, fun h => absurd List.prefix_rfl h⟩ }
  · have hne : List.replicate up.length (".." : Text) ++ down ≠ [] := by simpa using hnone
    have hsplit := splitAt_render hne (solid_steps hdown up.length)
    constructor
    · exact .inr ⟨up.length, down, hsplit, hdown⟩
    · rw [hsplit, resolve_append, resolve_ups, resolve_entries hdown]
    · rw [render_eq_dot (solid_steps hdown _) (dot_not_mem_steps hdown _)]
      refine ⟨fun h => absurd h hne, fun hsame => ?_⟩
      obtain rfl : up = [] := hprefix.mpr (hsame ▸ List.prefix_rfl)
      exact absurd ⟨rfl, (List.append_cancel_left hsame).symm⟩ hnone
    · rw [hsplit, ← hprefix]
      cases up with
      | nil =>
        refine ⟨fun h => ?_, fun h => absurd rfl h⟩
        exact absurd rfl (hdown _ (List.mem_of_mem_head? h)).ne_up
      | cons x up => exact ⟨fun _ => List.cons_ne_nil x up, fun _ => rfl⟩

end Path

namespace Vcs

open Hunkwise.Path

def IsFileName (name : Text) : Prop :=
  ∀ l ∈ name.letters, isStray l = false ∧ l ≠ .char '\x00'

theorem nameFault_eq_none {name : Text} : nameFault name = none ↔ IsFileName name := by
  unfold nameFault
  split
  · next hany =>
    obtain ⟨l, hl, hstray⟩ := List.any_eq_true.mp hany
    exact ⟨nofun, fun hname => absurd hstray (Bool.eq_false_iff.mp (hname l hl).1)⟩
  · next hany =>
    split
    · next hzero =>
      exact ⟨nofun, fun hname => absurd rfl (hname _ (List.contains_iff_mem.mp hzero)).2⟩
    · next hzero =>
      refine ⟨fun _ l hl => ⟨?_, ?_⟩, fun _ => rfl⟩
      · exact Bool.eq_false_iff.mpr fun hstray => hany (List.any_eq_true.mpr ⟨l, hl, hstray⟩)
      · rintro rfl
        exact hzero (List.contains_iff_mem.mpr hl)

namespace Repository

variable {r : Repository} {root path workdir rel : Text}

/-- Once the root is known, names that no file can have are all that a path can be refused for. -/
theorem relativize_eq_ok (hroot : r.root = some root) :
    r.relativize path workdir = .ok rel ↔
      (∀ name ∈ components path workdir ++ root.splitAt '/', IsFileName name) ∧
        rel = render (stepsFrom (components root workdir) (components path workdir)) := by
  simp only [relativize, hroot, ← nameFault_eq_none, ← List.findSome?_eq_none_iff]
  split
  · next f hf => exact ⟨nofun, fun h => by rw [hf] at h; cases h.1⟩
  · next hnone => exact ⟨fun h => ⟨hnone, (Except.ok.inj h).symm⟩, fun h => congrArg _ h.2.symm⟩

/-- The path from the root of a repository is in normal form and leads from the root to the file. Paths
that lead to the same place, and no others, have it in common. -/
theorem relative_path_leads_from_root (hroot : r.root = some root) (path workdir : Text) :
    ((∃ rel, r.relativize path workdir = .ok rel) ↔
      ∀ name ∈ components path workdir ++ root.splitAt '/', IsFileName name) ∧
    ∀ rel, r.relativize path workdir = .ok rel →
      IsWay (components root workdir) (components path workdir) rel ∧
      ∀ other rel', r.relativize other workdir = .ok rel' →
        (rel = rel' ↔ components path workdir = components other workdir) := by
  have hway (path : Text) := isWay_render (entries_components root workdir)
    (entries_components path workdir)
  refine ⟨?_, fun rel hrel => ⟨?_, fun other rel' hrel' => ?_⟩⟩
  · simp only [relativize_eq_ok hroot, exists_and_left, exists_eq, and_true]
  · rw [((relativize_eq_ok hroot).mp hrel).2]
    exact hway path
  · rw [((relativize_eq_ok hroot).mp hrel).2, ((relativize_eq_ok hroot).mp hrel').2]
    constructor
    · intro hsame
      rw [← (hway path).arrives, hsame, (hway other).arrives]
    · intro hsame
      rw [hsame]

def nestedHost : Host where
  answer _ _ := .exited 0 (Text.encodeChars "/proj//src\n".toList) []

/-- A file beside the root, whose directory shares only a part of its name, and the root itself. -/
theorem relative_path_of_neighbours :
    let r : Repository := { backend := .git, root := some "/proj//src" }
    (locate nestedHost { backend := .git } "/proj/src/a" []).1 = .ok r ∧
      r.relativize "x/..//../srcs/./a b" "/proj/src" = .ok "../srcs/a b" ∧
      IsWay ["proj", "src"] ["proj", "srcs", "a b"] "../srcs/a b" ∧
      r.relativize "/../proj/src/" "/proj/src" = .ok "." ∧
      IsWay ["proj", "src"] ["proj", "src"] "." := by
  intro r
  have hlocated : (locate nestedHost { backend := .git } "/proj/src/a" []).1 = .ok r := by
    rfl
  have hbeside : r.relativize "x/..//../srcs/./a b" "/proj/src" = .ok "../srcs/a b" := by
    decide +kernel
  have hself : r.relativize "/../proj/src/" "/proj/src" = .ok "." := by decide +kernel
  obtain ⟨-, hways⟩ := relative_path_leads_from_root (r := r) rfl "x/..//../srcs/./a b" "/proj/src"
  obtain ⟨-, hdots⟩ := relative_path_leads_from_root (r := r) rfl "/../proj/src/" "/proj/src"
  exact ⟨hlocated, hbeside, (hways _ hbeside).1, hself, (hdots _ hself).1⟩

end Repository

end Vcs

end Hunkwise
