import Hunkwise.Text.Basic

/-! Kinds of the values that a template can reach, and the members of each kind. A member is known
by its name; a kind has its own members and those of the kind of anything. -/

namespace Hunkwise.Template

inductive Kind where
  | text
  | number
  | kind
  | anything
  | nothing
  | group
  /-- A method of a value. -/
  | boundMethod
  /-- An operation of a value. -/
  | boundSlot
  /-- A method of a kind. -/
  | method
  /-- An operation of a kind. -/
  | slot
  /-- A property of a kind. -/
  | property
  /-- A kind with an argument. -/
  | application
  deriving DecidableEq, Repr

namespace Kind

def name : Kind → Text
  | text => "str"
  | number => "int"
  | kind => "type"
  | anything => "object"
  | nothing => "NoneType"
  | group => "tuple"
  | boundMethod => "builtin_function_or_method"
  | boundSlot => "method-wrapper"
  | method => "method_descriptor"
  | slot => "wrapper_descriptor"
  | property => "getset_descriptor"
  | application => "GenericAlias"

def home : Kind → Text
  | application => "types"
  | _ => "builtins"

def fullName (k : Kind) : Text :=
  match k with
  | application => k.home ++ "." ++ k.name
  | _ => k.name

def shown (k : Kind) : Text := "<class '" ++ k.fullName ++ "'>"

/-- The kinds whose members a kind has, itself first. -/
def ancestry (k : Kind) : List Kind := if k = anything then [anything] else [k, anything]

def methods : Kind → List String
  | text => [
    "encode", "replace", "split", "rsplit", "join", "capitalize", "casefold", "title", "center",
    "count", "expandtabs", "find", "partition", "index", "ljust", "lower", "lstrip", "rfind",
    "rindex", "rjust", "rstrip", "rpartition", "splitlines", "strip", "swapcase", "translate",
    "upper", "startswith", "endswith", "removeprefix", "removesuffix", "isascii", "islower",
    "isupper", "istitle", "isspace", "isdecimal", "isdigit", "isnumeric", "isalpha", "isalnum",
    "isidentifier", "isprintable", "zfill", "format", "format_map", "__format__", "__sizeof__",
    "__getnewargs__"]
  | number => [
    "conjugate", "bit_length", "bit_count", "to_bytes", "as_integer_ratio", "__trunc__",
    "__floor__", "__ceil__", "__round__", "__getnewargs__", "__format__", "__sizeof__"]
  | kind => [
    "mro", "__subclasses__", "__instancecheck__", "__subclasscheck__", "__dir__", "__sizeof__"]
  | anything => [
    "__reduce_ex__", "__reduce__", "__getstate__", "__format__", "__sizeof__", "__dir__"]
  | group => ["__getnewargs__", "index", "count"]
  | _ => []

def slots : Kind → List String
  | text => [
    "__repr__", "__hash__", "__str__", "__getattribute__", "__lt__", "__le__", "__eq__", "__ne__",
    "__gt__", "__ge__", "__iter__", "__mod__", "__rmod__", "__len__", "__getitem__", "__add__",
    "__mul__", "__rmul__", "__contains__"]
  | number => [
    "__repr__", "__hash__", "__getattribute__", "__lt__", "__le__", "__eq__", "__ne__", "__gt__",
    "__ge__", "__add__", "__radd__", "__sub__", "__rsub__", "__mul__", "__rmul__", "__mod__",
    "__rmod__", "__divmod__", "__rdivmod__", "__pow__", "__rpow__", "__neg__", "__pos__", "__abs__",
    "__bool__", "__invert__", "__lshift__", "__rlshift__", "__rshift__", "__rrshift__", "__and__",
    "__rand__", "__xor__", "__rxor__", "__or__", "__ror__", "__int__", "__float__", "__floordiv__",
    "__rfloordiv__", "__truediv__", "__rtruediv__", "__index__"]
  | kind => [
    "__repr__", "__call__", "__getattribute__", "__setattr__", "__delattr__", "__init__", "__or__",
    "__ror__"]
  | anything => [
    "__repr__", "__hash__", "__str__", "__getattribute__", "__setattr__", "__delattr__", "__lt__",
    "__le__", "__eq__", "__ne__", "__gt__", "__ge__", "__init__"]
  | group => [
    "__repr__", "__hash__", "__getattribute__", "__lt__", "__le__", "__eq__", "__ne__", "__gt__",
    "__ge__", "__iter__", "__len__", "__getitem__", "__add__", "__mul__", "__rmul__",
    "__contains__"]
  | nothing => ["__repr__", "__bool__"]
  | _ => []

def properties : Kind → List String
  | number => ["real", "imag", "numerator", "denominator"]
  | _ => []

def shared : Kind → List String
  | text => ["__new__", "maketrans"]
  | number => ["__new__", "from_bytes"]
  | kind => ["__new__"]
  | anything => ["__new__", "__subclasshook__", "__init_subclass__"]
  | _ => []

end Kind

inductive Form where
  | method
  | slot
  | property
  | shared
  deriving DecidableEq, Repr

structure Member where
  owner : Kind
  name : Text
  form : Form
  deriving DecidableEq, Repr

namespace Member

def lists (names : List String) (name : Text) : Bool := names.any (Text.ofString · = name)

def own? (owner : Kind) (name : Text) : Option Member :=
  if lists owner.methods name then some ⟨owner, name, .method⟩
  else if lists owner.slots name then some ⟨owner, name, .slot⟩
  else if lists owner.properties name then some ⟨owner, name, .property⟩
  else if lists owner.shared name then some ⟨owner, name, .shared⟩
  else none

def ofKind? (k : Kind) (name : Text) : Option Member := k.ancestry.findSome? (own? · name)

/-- The kind that a member is, outside any value. -/
def kindOf (m : Member) : Kind :=
  match m.form with
  | .method => .method
  | .slot => .slot
  | .property => .property
  | .shared => .boundMethod

def qualifiedName (m : Member) : Text := m.owner.name ++ "." ++ m.name

def shown (m : Member) : Text :=
  let sort : Text := match m.form with
    | .method => "method"
    | .slot => "slot wrapper"
    | .property => "attribute"
    | .shared => "built-in method"
  "<" ++ sort ++ " '" ++ m.name ++ "' of '" ++ m.owner.name ++ "' objects>"

end Member

end Hunkwise.Template
