import Hunkwise.Decimal.Double
import Hunkwise.Json.Basic

/-! Values of no fixed shape, as an answer shows them: a number that is not finite becomes null, and
a value that is too high cannot be shown. -/

namespace Hunkwise.Json

mutual

/-- A document in which null stands for every number that is not finite. -/
def finite : Json → Json
  | .float x => if Decimal.isFinite x then .float x else .null
  | .arr items => .arr (finiteItems items)
  | .obj fs => .obj (finiteFields fs)
  | v => v

def finiteItems : List Json → List Json
  | [] => []
  | v :: vs => finite v :: finiteItems vs

def finiteFields : List (Text × Json) → List (Text × Json)
  | [] => []
  | (k, v) :: fs => (k, finite v) :: finiteFields fs

end

def mostHeight : Nat := 255

def shown? (v : Json) : Option Json := if v.height ≤ mostHeight then some v.finite else none

def shownFields? (fs : Fields) : Option Json := do
  let shown ← fs.mapM fun f => (shown? f.2).map fun v => (f.1, v)
  return .obj shown

end Hunkwise.Json
