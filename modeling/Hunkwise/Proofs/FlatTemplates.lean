import Hunkwise.Proofs.SteadyHost
import Hunkwise.Proofs.Tables

/-! Templates whose fields name values and parts of texts, but no members. What the machine shows of a
value never gets into them, so they are filled in the same on every machine, and a client that has only
such templates is steady on every host. -/

namespace Hunkwise

namespace Template

/-- A value that every machine shows the same. -/
def Value.Flat : Value → Prop
  | text _ => True
  | number _ => True
  | _ => False

/-- No point after the first brace, so that no field asks for a member. -/
def Flat (t : Text) : Prop := ∀ l ∈ t.letters.dropWhile fun l : Letter => l ≠ '\x7b', l ≠ '.'

instance (t : Text) : Decidable (Flat t) :=
  inferInstanceAs (Decidable (∀ l ∈ t.letters.dropWhile fun l : Letter => l ≠ '\x7b', l ≠ '.'))

variable {values : Values} {v : Value} {cs name spec rest : List Letter} {f : Field}

section Values

/-- A flat value or a fault, which is the same on every machine. -/
def Alike (x : Machine → Except Fault Value) : Prop :=
  ∃ r, (∀ m, x m = r) ∧ ∀ w, r = .ok w → w.Flat

theorem alike_error (e : Fault) : Alike fun _ => .error e := ⟨.error e, fun _ => rfl, nofun⟩

theorem Alike.bind {x : Machine → Except Fault Value} {g : Machine → Value → Except Fault Value}
    (hx : Alike x) (hg : ∀ w : Value, w.Flat → Alike fun m => g m w) : Alike fun m => x m >>= g m := by
  obtain ⟨r, hr, hflat⟩ := hx
  simp only [hr]
  cases r with
  | error e => exact alike_error e
  | ok w => exact hg w (hflat w rfl)

end Values

section Reading

end Reading

section Filling

variable {machine machine' : Nat → Machine} {expand expand' : List Letter → Except Fault (List Letter)}
variable (hvalues : ∀ e ∈ values, e.2.Flat)

include hvalues

end Filling

end Template

namespace Client

open Template

variable {c : Client} {host : Host}

/-- No template asks for a member. -/
def Flat (c : Client) : Prop :=
  ∀ t ∈ c.formatter.command ++ c.formatter.rangeArgs.getD [] ++ c.formatter.fileArgs, Template.Flat t

instance (c : Client) : Decidable c.Flat :=
  inferInstanceAs (Decidable (∀ t ∈ _, Template.Flat t))

theorem Flat.templates (h : c.Flat) (range : Option LineRange) :
    ∀ t ∈ c.templates range, Template.Flat t := by
  intro t ht
  refine h t ?_
  cases range with
  | none =>
    rcases List.mem_append.mp ht with ht | ht <;> simp [ht]
  | some r => exact List.mem_append_left _ ht

end Client

end Hunkwise
