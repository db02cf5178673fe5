import Hunkwise.Proofs.FormatterRun
import Hunkwise.Vcs.Query

/-! Queries of version control. They run the program of a backend and look at what it wrote, and do
nothing else; so all that is known of a query comes from the commands it is made of. -/

namespace Hunkwise

open Effect

/-- A query of version control: it runs the program of a backend and gives it nothing to read. -/
structure Invocation.IsQuery (i : Invocation) : Prop where
  program : ∃ backend : Vcs.Backend, i.command = backend.program
  stdin : i.stdin = none

def Asks (log log' : List Invocation) : Prop := ∃ ran, log' = log ++ ran ∧ ∀ i ∈ ran, i.IsQuery

instance : IsPreorder (List Invocation) Asks where
  refl log := ⟨[], (List.append_nil log).symm, fun i hi => absurd hi List.not_mem_nil⟩
  trans := by
    rintro a b c ⟨ran, rfl, h⟩ ⟨ran', rfl, h'⟩
    refine ⟨ran ++ ran', List.append_assoc .., ?_⟩
    intro i hi
    rcases List.mem_append.mp hi with hi | hi
    · exact h i hi
    · exact h' i hi

/-- What a command answers depends on its arguments, its directory and what it reads. -/
def Host.Repeats (host : Host) : Prop :=
  ∀ log log' i i', i.argv = i'.argv → i.directory = i'.directory → i.stdin = i'.stdin →
    host log i = host log' i'

namespace Vcs

def Failure.Supported (f : Failure) : Prop := ∀ name, f ≠ .unsupported name

inductive Query (host : Host) : {α : Type} → Commands Failure α → Prop
  | asked (r : Repository) (directory : Option Text) (args : List Text) :
      Query host (r.runIn host directory args)
  | known {α : Type} (result : Except Failure α) :
      (∀ f, result = .error f → f.Supported) → Query host (ExceptT.mk (pure result))
  | bind {α β : Type} {x : Commands Failure α} {f : α → Commands Failure β} :
      Query host x → (∀ a, Query host (f a)) → Query host (x >>= f)

section Rules

variable {host : Host} {α : Type} {x : Commands Failure α}

theorem query_pure (a : α) : Query host (pure a) := .known (.ok a) nofun

theorem query_throw {f : Failure} (h : f.Supported) : Query host (throw f : Commands Failure α) :=
  .known (.error f) fun _ hf => Except.error.inj hf ▸ h

theorem Query.leads (h : Query host x) : Leads Asks x := by
  induction h with
  | asked r directory args =>
    apply Leads.adapt
    intro log
    rw [Host.run_encodable host rfl]
    refine ⟨_, rfl, ?_⟩
    intro i hi
    rw [List.mem_singleton.mp hi]
    exact ⟨⟨r.backend, rfl⟩, rfl⟩
  | known result _ => exact leads_still fun _ => rfl
  | bind _ _ hx hf => exact hx.bind hf

theorem Query.fails (h : Query host x) : Fails Failure.Supported x := by
  induction h with
  | asked r directory args => exact Fails.adapt fun _ _ _ _ => nofun
  | known result hresult => exact fun _ f hf => hresult f hf
  | bind _ _ hx hf => exact hx.bind hf

end Rules

theorem nameFault_supported {name : Text} {f : Failure} (h : nameFault name = some f) :
    f.Supported := by
  unfold nameFault at h
  intro other
  split at h
  · cases h; nofun
  · split at h
    · cases h; nofun
    · cases h

theorem Git.readEntry_supported {s : FileStatus} {line : Text} {f : Failure}
    (h : Git.readEntry s line = .error f) : f.Supported := by
  unfold Git.readEntry at h
  split at h
  · unfold Git.readAttributes at h
    split at h
    · split at h
      · cases h; nofun
      · split at h <;> cases h
    · cases h; nofun
  · cases h

theorem Git.readListing_supported {lines : List Text} {f : Failure}
    (h : Git.readListing lines = .error f) : f.Supported := by
  unfold Git.readListing at h
  generalize ({} : FileStatus) = s at h
  induction lines generalizing s with
  | nil => cases h
  | cons line lines ih =>
    rw [List.foldlM_cons] at h
    cases hline : Git.readEntry s line with
    | error g =>
      rw [hline] at h
      cases h
      exact Git.readEntry_supported hline
    | ok s' =>
      rw [hline] at h
      exact ih s' h

namespace Repository

variable (host : Host) (r : Repository) (path : Text)

theorem query_relativePath : Query host (r.relativePath path) := by
  refine .known _ fun f hf => ?_
  unfold relativize at hf
  split at hf
  · cases hf
    nofun
  · dsimp only at hf
    split at hf
    · next g hg =>
      cases hf
      obtain ⟨name, -, hname⟩ := List.exists_of_findSome?_eq_some hg
      exact nameFault_supported hname
    · cases hf

theorem query_locate : Query host (locate host r path) := by
  refine (Query.asked r _ _).bind fun out => ?_
  split
  · exact query_pure _
  · exact query_throw nofun

theorem query_conflicts : Query host (conflicts host r path) := by
  refine (query_relativePath host r path).bind fun relative => ?_
  refine (Query.asked r _ _).bind fun out => ?_
  split
  · exact query_pure _
  · exact query_throw nofun

theorem query_status : Query host (status host r path) := by
  unfold status
  split
  · refine (query_relativePath host r path).bind fun relative => ?_
    refine (Query.asked r _ _).bind fun out => ?_
    split
    · exact .known _ fun _ h => Git.readListing_supported h
    · exact query_throw nofun
  · refine (query_conflicts host r path).bind fun unresolved => ?_
    refine (query_relativePath host r path).bind fun relative => ?_
    refine (Query.asked r _ _).bind fun out => ?_
    split
    · exact query_pure _
    · exact query_throw nofun

theorem query_baseline : Query host (baseline host r path) := by
  refine (query_relativePath host r path).bind fun relative => ?_
  refine (Query.asked r _ _).bind fun out => ?_
  split
  · exact query_pure _
  · exact query_throw nofun

end Repository

end Vcs

end Hunkwise
