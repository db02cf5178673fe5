import Mathlib.Order.Defs.Unbundled

/-! Programs that read and write a state and may fail. Commands, settings, requests and handlers are
all of this kind. What is known of their parts is put together here once for all of them: how a run
goes on, which states it leads to, how it fails, and whether its result depends on the state. -/

namespace Hunkwise.Effect

abbrev Program (σ ε α : Type) := ExceptT ε (StateM σ) α

variable {σ ε ε' α β : Type} {x : Program σ ε α} {f : α → Program σ ε β} {s s' : σ}

theorem bind_get (f : σ → Program σ ε β) : (get >>= f) s = f s s := rfl

theorem bind_done (a : α) (f : α → Program σ ε β) :
    (ExceptT.mk (pure (.ok a)) >>= f : Program σ ε β) s = f a s := rfl

theorem bind_ok {a : α} (h : x s = (.ok a, s')) (f : α → Program σ ε β) :
    (x >>= f) s = f a s' := by
  show (match x s with | (r, t) => ExceptT.bindCont f r t) = f a s'
  rw [h]
  rfl

theorem bind_error {e : ε} (h : x s = (.error e, s')) (f : α → Program σ ε β) :
    (x >>= f) s = (.error e, s') := by
  show (match x s with | (r, t) => ExceptT.bindCont f r t) = (.error e, s')
  rw [h]
  rfl

theorem adapt_apply (g : ε → ε') (x : Program σ ε α) (s : σ) :
    ExceptT.adapt g x s = ((x s).1.mapError g, (x s).2) := rfl

theorem adapt_eq_ok {a : α} (g : ε → ε') :
    ExceptT.adapt g x s = (.ok a, s') ↔ x s = (.ok a, s') := by
  rw [adapt_apply]
  cases x s with
  | mk r t =>
    cases r with
    | ok a' => constructor <;> (intro h; cases h; rfl)
    | error e => exact ⟨nofun, nofun⟩

theorem discard_eq (x : Program σ ε α) : discard x = (x >>= fun _ => pure ()) := by
  rw [bind_pure_comp]
  rfl

theorem bind_cases (x : Program σ ε α) (f : α → Program σ ε β) (s : σ) :
    (∃ a, (x s).1 = .ok a ∧ (x >>= f) s = f a (x s).2) ∨
      ∃ e, (x s).1 = .error e ∧ (x >>= f) s = (.error e, (x s).2) := by
  cases hx : x s with
  | mk r t =>
    cases r with
    | ok a => exact .inl ⟨a, rfl, bind_ok hx f⟩
    | error e => exact .inr ⟨e, rfl, bind_error hx f⟩

theorem bind_inv {b : β} (h : (x >>= f) s = (.ok b, s')) :
    ∃ a t, x s = (.ok a, t) ∧ f a t = (.ok b, s') := by
  rcases bind_cases x f s with ⟨a, ha, hrest⟩ | ⟨e, -, hrest⟩
  · exact ⟨a, (x s).2, Prod.ext ha rfl, hrest ▸ h⟩
  · rw [hrest] at h
    cases h

section Leads

/-- Every run, failed or not, leads from a state to a related one. -/
def Leads (R : σ → σ → Prop) (x : Program σ ε α) : Prop := ∀ s, R s (x s).2

variable {R : σ → σ → Prop}

theorem Leads.adapt (hx : Leads R x) (g : ε → ε') : Leads R (ExceptT.adapt g x) := hx

variable [IsPreorder σ R]

theorem leads_still (h : ∀ s, (x s).2 = s) : Leads R x := fun s => by rw [h]; exact refl_of R s

theorem leads_pure (a : α) : Leads R (pure a : Program σ ε α) := leads_still fun _ => rfl

theorem leads_throw (e : ε) : Leads R (throw e : Program σ ε α) := leads_still fun _ => rfl

theorem leads_get : Leads R (get : Program σ ε σ) := leads_still fun _ => rfl

theorem Leads.bind (hx : Leads R x) (hf : ∀ a, Leads R (f a)) : Leads R (x >>= f) := by
  intro s
  rcases bind_cases x f s with ⟨a, -, h⟩ | ⟨e, -, h⟩
  · rw [h]
    exact trans_of R (hx s) (hf a _)
  · rw [h]
    exact hx s

/-- What holds of the state in the end, where all parts but the last lead to states related to the
one at the start. -/
theorem Leads.bind_last {Q : σ → Prop} {t : σ} (hx : Leads R x) (ht : R s t)
    (hstop : ∀ t', R s t' → Q t') (hf : ∀ a t', R s t' → Q (f a t').2) : Q ((x >>= f) t).2 := by
  have hnext := trans_of R ht (hx t)
  rcases bind_cases x f t with ⟨a, -, h⟩ | ⟨e, -, h⟩
  · rw [h]
    exact hf a _ hnext
  · rw [h]
    exact hstop _ hnext

theorem Leads.discard (hx : Leads R x) : Leads R (discard x) := by
  rw [discard_eq]
  exact hx.bind fun _ => leads_pure ()

theorem leads_mapM {g : α → Program σ ε β} {as : List α} (h : ∀ a ∈ as, Leads R (g a)) :
    Leads R (as.mapM g) := by
  induction as with
  | nil => exact leads_pure []
  | cons a as ih =>
    rw [List.mapM_cons]
    refine (h a List.mem_cons_self).bind fun b => ?_
    refine (ih fun a' ha' => h a' (List.mem_cons_of_mem a ha')).bind fun bs => ?_
    exact leads_pure _

end Leads

section Fails

def Fails (E : ε → Prop) (x : Program σ ε α) : Prop := ∀ s e, (x s).1 = .error e → E e

variable {E : ε → Prop}

theorem fails_pure (a : α) : Fails E (pure a : Program σ ε α) := fun _ _ h => nomatch h

theorem fails_get : Fails E (get : Program σ ε σ) := fun _ _ h => nomatch h

theorem fails_throw {e : ε} (h : E e) : Fails E (throw e : Program σ ε α) := by
  intro s e' he
  cases he
  exact h

theorem Fails.bind (hx : Fails E x) (hf : ∀ a, Fails E (f a)) : Fails E (x >>= f) := by
  intro s e he
  rcases bind_cases x f s with ⟨a, -, h⟩ | ⟨e', he', h⟩
  · rw [h] at he
    exact hf a _ e he
  · rw [h] at he
    cases he
    exact hx s e he'

theorem Fails.adapt {g : ε → ε'} {E' : ε' → Prop} (hx : Fails (fun e => E' (g e)) x) :
    Fails E' (ExceptT.adapt g x) := by
  intro s e he
  rw [adapt_apply] at he
  cases hr : (x s).1 with
  | ok a => rw [hr] at he; cases he
  | error e' =>
    rw [hr] at he
    cases he
    exact hx s e' hr

theorem Fails.discard (hx : Fails E x) : Fails E (discard x) := by
  rw [discard_eq]
  exact hx.bind fun _ => fails_pure ()

theorem fails_mapM {g : α → Program σ ε β} {as : List α} (h : ∀ a ∈ as, Fails E (g a)) :
    Fails E (as.mapM g) := by
  induction as with
  | nil => exact fails_pure []
  | cons a as ih =>
    rw [List.mapM_cons]
    refine (h a List.mem_cons_self).bind fun b => ?_
    refine (ih fun a' ha' => h a' (List.mem_cons_of_mem a ha')).bind fun bs => ?_
    exact fails_pure _

end Fails

section Steady

def Steady (x : Program σ ε α) : Prop := ∀ s s', (x s).1 = (x s').1

theorem Steady.bind (hx : Steady x) (hf : ∀ a, Steady (f a)) : Steady (x >>= f) := by
  intro s s'
  have hsame := hx s s'
  rcases bind_cases x f s with ⟨a, ha, h⟩ | ⟨e, he, h⟩
  · rcases bind_cases x f s' with ⟨a', ha', h'⟩ | ⟨e', he', h'⟩
    · rw [ha, ha'] at hsame
      cases hsame
      rw [h, h']
      exact hf a _ _
    · rw [ha, he'] at hsame
      cases hsame
  · rcases bind_cases x f s' with ⟨a', ha', h'⟩ | ⟨e', he', h'⟩
    · rw [he, ha'] at hsame
      cases hsame
    · rw [he, he'] at hsame
      cases hsame
      rw [h, h']

theorem Steady.adapt (hx : Steady x) (g : ε → ε') : Steady (ExceptT.adapt g x) := by
  intro s s'
  rw [adapt_apply, adapt_apply, hx s s']

end Steady

end Hunkwise.Effect
