import Hunkwise.Table
import Hunkwise.Text.Basic

/-! Documents. An object is a table: every key stands once, and setting it again keeps its place. -/

namespace Hunkwise

inductive Json where
  | null
  | bool (b : Bool)
  | int (n : Int)
  | float (x : Float)
  | str (s : Text)
  | arr (items : List Json)
  | obj (fields : List (Text × Json))

instance : Inhabited Json := ⟨.null⟩

abbrev Fields := Table Text Json

namespace Json

/-- An object with the given fields, the later of two with the same key winning. -/
def object (fs : Fields) : Json := .obj (Table.update [] fs)

def ofNat (n : Nat) : Json := .int n

def ofTexts (ts : List Text) : Json := .arr (ts.map .str)

def ofOption {α : Type} (f : α → Json) : Option α → Json
  | none => .null
  | some a => f a

def isNull : Json → Bool
  | .null => true
  | _ => false

mutual

/-- The number of values on the longest way into a document. -/
def height : Json → Nat
  | .arr items => itemsHeight items + 1
  | .obj fs => fieldsHeight fs + 1
  | _ => 1

def itemsHeight : List Json → Nat
  | [] => 0
  | v :: vs => max v.height (itemsHeight vs)

def fieldsHeight : List (Text × Json) → Nat
  | [] => 0
  | (_, v) :: fs => max v.height (fieldsHeight fs)

end

mutual

/-- Holds of all texts and numbers of a document, keys being texts. -/
def all (text : Text → Bool) (number : Float → Bool) : Json → Bool
  | .str s => text s
  | .float x => number x
  | .arr items => allItems text number items
  | .obj fs => allFields text number fs
  | _ => true

def allItems (text : Text → Bool) (number : Float → Bool) : List Json → Bool
  | [] => true
  | v :: vs => v.all text number && allItems text number vs

def allFields (text : Text → Bool) (number : Float → Bool) : List (Text × Json) → Bool
  | [] => true
  | (k, v) :: fs => text k && v.all text number && allFields text number fs

end

/-- Without halves, so that bytes can encode it. -/
def isEncodable (v : Json) : Bool := v.all Text.isEncodable fun _ => true

end Json

end Hunkwise
