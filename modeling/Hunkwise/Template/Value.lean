import Hunkwise.Template.Kind
import Hunkwise.Template.Spec
import Hunkwise.Text.Quoted

/-! Values of a template, and what can be reached from them: a part of a value by its number, a
member by its name. Where a value stands in memory is the machine's choice, and so is what it holds
under names that no kind lists, such as its documentation. -/

namespace Hunkwise.Template

inductive Value where
  | text (s : Text)
  | number (n : Int)
  | nothing
  | kind (k : Kind)
  | group (items : List Value)
  /-- A member together with the value it works on. -/
  | bound (m : Member) (self : Value)
  /-- A member of a kind, on its own. -/
  | member (m : Member)
  /-- A kind with an argument. -/
  | application (k : Kind) (argument : Value)
  /-- A value of another kind, which only the machine knows. -/
  | foreign (n : Nat)

/-- What the machine knows of values. -/
structure Machine where
  /-- Where a value stands in memory. -/
  place : Value → Nat := fun _ => 0
  /-- What else a value has under a name. -/
  attribute? : Value → Text → Option Value := fun _ _ => none
  element? : Nat → List Letter → Option Value := fun _ _ => none
  /-- How a foreign value is written inside others, with this way to quote texts. -/
  inspect : (Text → Text) → Nat → Text := fun _ _ => ""
  shown : Nat → Text := fun _ => ""

instance : Inhabited Machine := ⟨{}⟩

namespace Value

def kindOf : Value → Kind
  | text _ => .text
  | number _ => .number
  | nothing => .nothing
  | kind _ => .kind
  | group _ => .group
  | bound m _ => if m.form = .slot then .boundSlot else .boundMethod
  | member m => m.kindOf
  | application _ _ => .application
  | foreign _ => .anything

def object (machine : Machine) (v : Value) : Text :=
  v.kindOf.name ++ " object at 0x" ++ Text.ofChars (Nat.toDigits 16 (machine.place v))

mutual

/-- A value as it is written inside others: texts are quoted. -/
def inspect (machine : Machine) (quote : Text → Text) : Value → Text
  | text s => quote s
  | number n => Text.ofInt n
  | nothing => "None"
  | kind k => k.shown
  | group [v] => "(" ++ inspect machine quote v ++ ",)"
  | group items => "(" ++ Text.intercalate ", " (inspectAll machine quote items) ++ ")"
  | bound m v =>
    if m.form = .slot then "<method-wrapper '" ++ m.name ++ "' of " ++ v.object machine ++ ">"
    else "<built-in method " ++ m.name ++ " of " ++ v.object machine ++ ">"
  | member m => m.shown
  | application k v => k.name ++ "[" ++ inspect machine quote v ++ "]"
  | foreign n => machine.inspect quote n

def inspectAll (machine : Machine) (quote : Text → Text) : List Value → List Text
  | [] => []
  | v :: vs => inspect machine quote v :: inspectAll machine quote vs

end

def shown (machine : Machine) : Value → Text
  | text s => s
  | foreign n => machine.shown n
  | v => v.inspect machine Text.quote

def home : Value → Kind
  | kind k => k
  | v => v.kindOf

def ofKinds (ks : List Kind) : Value := group (ks.map kind)

def kindProperty? (k : Kind) (name : Text) : Option Value :=
  if name = "__name__" ∨ name = "__qualname__" then some (text k.name)
  else if name = "__module__" then some (text k.home)
  else if name = "__base__" then some (((k.ancestry[1]?).map kind).getD nothing)
  else if name = "__bases__" then some (ofKinds (k.ancestry.drop 1))
  else if name = "__mro__" then some (ofKinds k.ancestry)
  else none

def memberProperty? (m : Member) (name : Text) : Option Value :=
  if name = "__name__" then some (text m.name)
  else if name = "__qualname__" then some (text m.qualifiedName)
  else if name = "__objclass__" then some (kind m.owner)
  else none

def boundProperty? (m : Member) (self : Value) (name : Text) : Option Value :=
  if name = "__self__" then some self
  else if m.form = .slot then memberProperty? m name
  else if name = "__name__" then some (text m.name)
  else if name = "__qualname__" then some (text (self.home.name ++ "." ++ m.name))
  else if name = "__module__" then some nothing
  else none

def property? (v : Value) (name : Text) : Option Value :=
  match v with
  | number n =>
    if name = "real" ∨ name = "numerator" then some (number n)
    else if name = "imag" then some (number 0)
    else if name = "denominator" then some (number 1)
    else none
  | kind k => kindProperty? k name
  | bound m self => boundProperty? m self name
  | member m => memberProperty? m name
  | application k argument =>
    if name = "__origin__" then some (kind k)
    else if name = "__args__" then some (group [argument])
    else if name = "__parameters__" then some (group [])
    else kindProperty? k name
  | _ => none

def ofMember (k : Kind) (m : Member) : Value :=
  if m.form = .shared then bound m (kind k) else member m

def withMember (v : Value) (m : Member) : Value :=
  if m.form = .shared then bound m (kind v.kindOf) else bound m v

/-- What a value has under a name on every machine. -/
def known? (v : Value) (name : Text) : Option Value :=
  if name = "__class__" then some (kind v.kindOf)
  else (property? v name).or <| match v with
    | kind k => ((Member.ofKind? k name).map (ofMember k)).or
        ((Member.ofKind? .kind name).map v.withMember)
    | application k _ => (Member.ofKind? k name).map (ofMember k)
    | _ => (Member.ofKind? v.kindOf name).map v.withMember

def attribute? (machine : Machine) (v : Value) (name : Text) : Option Value :=
  match v with
  | foreign _ => machine.attribute? v name
  | v => (v.known? name).or (machine.attribute? v name)

end Value

end Hunkwise.Template
