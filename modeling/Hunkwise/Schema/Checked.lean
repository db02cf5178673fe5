import Hunkwise.Schema.Problem

/-! Checking a document against what it should hold. Checks of the parts of a document are all made,
and their problems are kept in order. -/

namespace Hunkwise

/-- A value, or the problems that stood in its way. -/
inductive Checked (α : Type) where
  | good (a : α)
  | bad (ps : List Problem)

namespace Checked

variable {α β : Type}

def map (f : α → β) : Checked α → Checked β
  | good a => good (f a)
  | bad ps => bad ps

/-- Applies a checked function; the problems of both sides count. -/
def seq : Checked (α → β) → Checked α → Checked β
  | good f, good a => good (f a)
  | good _, bad ps => bad ps
  | bad ps, good _ => bad ps
  | bad ps, bad qs => bad (ps ++ qs)

instance : Applicative Checked where
  pure := good
  seq f x := seq f (x ())

def andThen : Checked α → (α → Checked β) → Checked β
  | good a, f => f a
  | bad ps, _ => bad ps

def fail (f : Fault) (subject : Json) : Checked α := bad [⟨[], f, subject⟩]

/-- The same check of a part that stands at `s`. -/
def within (s : Step) : Checked α → Checked α
  | good a => good a
  | bad ps => bad (ps.map fun p => { p with path := s :: p.path })

def verdict (title : Text) : Checked α → Except Rejection α
  | good a => .ok a
  | bad ps => .error ⟨title, ps⟩

def all : List (Checked α) → Checked (List α)
  | [] => good []
  | c :: cs => seq (c.map List.cons) (all cs)

end Checked

abbrev Check (α : Type) := Json → Checked α

namespace Check

variable {α : Type}

def nullable (c : Check α) : Check (Option α)
  | .null => .good none
  | v => (c v).map some

def list (c : Check α) : Check (List α)
  | .arr items => Checked.all (items.mapIdx fun i v => (c v).within (.index i))
  | v => .fail .listKind v

/-- Any object, kept as it is. -/
def mapping : Check Fields
  | .obj fs => .good fs
  | v => .fail .mappingKind v

def model (title : Text) (body : Fields → Checked α) : Check α
  | .obj fs => body fs
  | v => .fail (.notModel title) v

def slot (c : Check α) (items : List Json) (i : Nat) : Checked α :=
  (match items[i]? with
    | some v => c v
    | none => .fail .missing (.arr items)).within (.index i)

def pair (c : Check α) : Check (α × α)
  | .arr items =>
    if items.length > 2 then .fail (.tooLong items.length) (.arr items)
    else Prod.mk <$> slot c items 0 <*> slot c items 1
  | v => .fail .pairKind v

def required (fs : Fields) (name : Text) (c : Check α) : Checked α :=
  (match fs.get? name with
    | some v => c v
    | none => .fail .missing (.obj fs)).within (.key name)

def optional (fs : Fields) (name : Text) (missing : α) (c : Check α) : Checked α :=
  match fs.get? name with
  | some v => (c v).within (.key name)
  | none => .good missing

def extras (known : List Text) (fs : Fields) : Checked Unit :=
  match fs.filter fun (k, _) => !known.contains k with
  | [] => .good ()
  | others => .bad (others.map fun (k, v) => ⟨[.key k], .extra, v⟩)

/-- The check of an object that may have no field besides the known ones. Names are compared as
characters, so that a name with halves is the only problem there is. -/
def closed (known : List Text) (fs : Fields) (body : Checked α) : Checked α :=
  if fs.any fun (k, _) => !k.isEncodable then .fail .notUnicode (.obj fs)
  else body <* extras known fs

end Check

end Hunkwise
