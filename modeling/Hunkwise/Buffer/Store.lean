import Hunkwise.Buffer.Basic
import Hunkwise.Table

/-! Open buffers by id. -/

namespace Hunkwise

abbrev Store := Table Text Buffer

def notOpenMessage (id : Text) : Text := "buffer " ++ id ++ " is not open"

namespace Store

def put (s : Store) (id : Text) (b : Buffer) : Store := s.set id b

def close (s : Store) (id : Text) : Store := s.without id

end Store

end Hunkwise
