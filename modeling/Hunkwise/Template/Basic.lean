import Hunkwise.Table
import Hunkwise.Template.Value

/-! Templates. Text stands for itself, doubled braces for single ones, and a field in braces for a
named value, which may be indexed, converted to text and formatted. A template is read and filled
from left to right, so the first thing wrong with it is what is reported. -/

namespace Hunkwise.Template

abbrev Values := Table Text Value

inductive Fault where
  /-- Braces, a field, a conversion or a specification are malformed, or do not fit the value. -/
  | malformed
  | unknownName (name : Text)
  /-- A field without a name, or with a number for it. -/
  | positional
  /-- A text indexed by a word, or anything else indexed at all. -/
  | badIndex
  | indexTooLarge
  | noAttribute
  /-- A specification for something other than a text or a number. -/
  | noSpec
  | spec (f : SpecFault)
  deriving DecidableEq, Repr

/-- A field: its name with what follows it, its conversion and its specification. -/
structure Field where
  name : List Letter
  conversion : Option Letter
  spec : List Letter
  deriving DecidableEq, Repr

/-- The letters up to the end of a field's name and the mark that ends it. What stands in brackets
is passed over. -/
def readName : Bool → List Letter → Option (List Letter × Letter × List Letter)
  | _, [] => none
  | true, c :: cs => (readName (c ≠ ']') cs).map fun (n, m, r) => (c :: n, m, r)
  | false, c :: cs =>
    if c = '\x7b' then none
    else if c = '\x7d' ∨ c = ':' ∨ c = '!' then some ([], c, cs)
    else (readName (c = '[') cs).map fun (n, m, r) => (c :: n, m, r)

/-- A specification up to the brace that closes its field; `depth` braces are open. -/
def readSpecText : Nat → List Letter → Option (List Letter × List Letter)
  | _, [] => none
  | depth, c :: cs =>
    if c = '\x7d' then
      if depth ≤ 1 then some ([], cs)
      else (readSpecText (depth - 1) cs).map fun (s, r) => (c :: s, r)
    else
      let depth := if c = '\x7b' then depth + 1 else depth
      (readSpecText depth cs).map fun (s, r) => (c :: s, r)

def readField (cs : List Letter) : Option (Field × List Letter) := do
  let (name, mark, rest) ← readName false cs
  if mark = '\x7d' then some (⟨name, none, []⟩, rest)
  else if mark = ':' then
    let (spec, rest) ← readSpecText 1 rest
    some (⟨name, none, spec⟩, rest)
  else match rest with
    | c :: .char '\x7d' :: rest => some (⟨name, some c, []⟩, rest)
    | c :: .char ':' :: rest =>
      let (spec, rest) ← readSpecText 1 rest
      some (⟨name, some c, spec⟩, rest)
    | _ => none

/-- The number that letters stand for, in decimal digits of any script; nothing if they stand for
none. `n` is the number of the digits before. -/
def indexFrom (n : Nat) : List Letter → Except Fault (Option Nat)
  | [] => .ok (some n)
  | c :: cs =>
    match Text.digitValue? c with
    | none => .ok none
    | some d => if mostPlaces < n * 10 + d then .error .malformed else indexFrom (n * 10 + d) cs

def indexNumber (cs : List Letter) : Except Fault (Option Nat) :=
  if cs.isEmpty then .ok none else indexFrom 0 cs

/-- The part of a value under a key, which is a number or a word. Kinds of kinds and of groups take
the key for an argument. -/
def element (machine : Machine) (key : List Letter) (v : Value) : Except Fault Value := do
  let index ← indexNumber key
  match v with
  | .text s =>
    match index.map fun i => s.letters[i]? with
    | some (some l) => return .text ⟨[l]⟩
    | some none => throw .indexTooLarge
    | none => throw .badIndex
  | .group items =>
    match index.map fun i => items[i]? with
    | some (some v) => return v
    | some none => throw .indexTooLarge
    | none => throw .badIndex
  | .kind k =>
    if k = .kind ∨ k = .group then
      return .application k ((index.map fun i => Value.number i).getD (.text ⟨key⟩))
    else throw .badIndex
  | .foreign n =>
    match machine.element? n key with
    | some v => return v
    | none => throw .badIndex
  | _ => throw .badIndex

def attributeOf (machine : Machine) (name : Text) (v : Value) : Except Fault Value :=
  match v.attribute? machine name with
  | some w => .ok w
  | none => .error .noAttribute

def inName (l : Letter) : Bool := l ≠ '.' && l ≠ '['

def follow (machine : Machine) : Nat → List Letter → Value → Except Fault Value
  | _, [], v => .ok v
  | 0, _, _ => .error .malformed
  | fuel + 1, c :: cs, v =>
    if c = '.' then
      let name := cs.takeWhile inName
      if name.isEmpty then .error .malformed
      else do follow machine fuel (cs.drop name.length) (← attributeOf machine ⟨name⟩ v)
    else if c = '[' then
      let key := cs.takeWhile (· ≠ .char ']')
      if key.length = cs.length || key.isEmpty then .error .malformed
      else do follow machine fuel (cs.drop (key.length + 1)) (← element machine key v)
    else .error .malformed

def lookUp (machine : Machine) (values : Values) (name : List Letter) : Except Fault Value := do
  let first := name.takeWhile inName
  if first.isEmpty || (← indexNumber first).isSome then throw .positional
  match values.get? ⟨first⟩ with
  | none => throw (.unknownName ⟨first⟩)
  | some v => follow machine name.length (name.drop first.length) v

/-- A value under a conversion; the letter NUL asks for none. -/
def convert (machine : Machine) (v : Value) : Option Letter → Except Fault Value
  | none => .ok v
  | some (.char '\x00') => .ok v
  | some (.char 's') => .ok (.text (v.shown machine))
  | some (.char 'r') => .ok (.text (v.inspect machine Text.quote))
  | some (.char 'a') => .ok (.text (v.inspect machine Text.quoteAscii))
  | some _ => .error .malformed

def formatValue (machine : Machine) (spec : List Letter) (v : Value) : Except Fault (List Letter) :=
  if spec.isEmpty then .ok (v.shown machine).letters
  else match v with
    | .text t =>
      match readSpec spec with
      | some s => (s.formatText t.letters).mapError .spec
      | none => .error .malformed
    | .number n =>
      match readSpec spec with
      | some s => (s.formatNumber n).mapError .spec
      | none => .error .malformed
    | _ => .error .noSpec

/-- Fills one field; `expand` fills the fields inside its specification. -/
def fillField (machine : Machine) (values : Values)
    (expand : List Letter → Except Fault (List Letter)) (f : Field) : Except Fault (List Letter) := do
  let v ← convert machine (← lookUp machine values f.name) f.conversion
  let spec ← if f.spec.contains (.char '\x7b') then expand f.spec else pure f.spec
  formatValue machine spec v

variable (machine : Nat → Machine) (values : Values)

/-- Fills a template from left to right. What the machine shows in a field may differ from field to
field, and a field is told by the number of letters that are left of the template. -/
def fillFrom (expand : List Letter → Except Fault (List Letter)) :
    Nat → List Letter → Except Fault (List Letter)
  | _, [] => .ok []
  | 0, _ :: _ => .error .malformed
  | fuel + 1, c :: cs =>
    if c = '\x7b' then
      match cs with
      | [] => .error .malformed
      | d :: rest =>
        if d = '\x7b' then do return c :: (← fillFrom expand fuel rest)
        else match readField cs with
          | none => .error .malformed
          | some (f, rest) => do
            let filled ← fillField (machine cs.length) values expand f
            return filled ++ (← fillFrom expand fuel rest)
    else if c = '\x7d' then
      match cs with
      | d :: rest =>
        if d = '\x7d' then do return c :: (← fillFrom expand fuel rest)
        else .error .malformed
      | [] => .error .malformed
    else do return c :: (← fillFrom expand fuel cs)

def fillTo : Nat → List Letter → Except Fault (List Letter)
  | 0, _ => .error .malformed
  | depth + 1, cs => fillFrom machine values (fillTo depth) cs.length cs

def fill (template : Text) : Except Fault Text := do
  return ⟨← fillTo machine values 2 template.letters⟩

def fillAll (machine : Nat → Nat → Machine) (values : Values) (templates : List Text) :
    Except Fault (List Text) :=
  templates.zipIdx.mapM fun (template, k) => fill (machine k) values template

end Hunkwise.Template
