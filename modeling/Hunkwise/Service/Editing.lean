import Hunkwise.Service.Basic

/-! Buffers of the editor: opening, showing and closing them. -/

namespace Hunkwise.Service

def view (s : Service) (id : Text) (b : Buffer) : BufferView :=
  { id, path := b.path, content := b.text
    clients := (s.attachments.forBuffer id).map (·.client.name) }

def openBuffer (id : Text) (u : BufferUpdate) : Handler Json := do
  let b := Buffer.ofText u.path u.content
  modify fun s => { s with buffers := s.buffers.put id b }
  return ((← get).view id b).toJson

def showBuffer (id : Text) : Handler Json := do
  let b ← Handler.buffer id
  return ((← get).view id b).toJson

def closeBuffer (id : Text) : Handler Json := do
  discard (Handler.buffer id)
  let (detached, attachments) := (← get).attachments.detach id none
  modify fun s => { s with buffers := s.buffers.close id, attachments }
  return .obj [("status", .str "success"), ("buffer_id", .str id), ("detached", .ofNat detached)]

end Hunkwise.Service
