import Hunkwise.Vcs.Git
import Hunkwise.Vcs.Mercurial

/-! Queries to a repository: the status of a file, its baseline, and its conflicts. -/

namespace Hunkwise.Vcs.Repository

def relativePath (r : Repository) (path : Text) : Commands Failure Text :=
  ExceptT.mk (pure (r.relativize path))

def conflicts (host : Host) (r : Repository) (path : Text) : Commands Failure (List Text) := do
  let out ← run host r (Mercurial.conflictsQuery (← r.relativePath path))
  if out.ok then return Mercurial.readConflicts out.stdout
  throw (.conflictsUnknown path)

def status (host : Host) (r : Repository) (path : Text) : Commands Failure FileStatus :=
  match r.backend with
  | .git => do
    let out ← run host r (Git.statusQuery (← r.relativePath path))
    if out.ok then ExceptT.mk (pure (Git.readListing out.stdout))
    else throw (.statusUnknown path)
  | .mercurial => do
    let unresolved ← conflicts host r path
    let out ← run host r (Mercurial.statusQuery (← r.relativePath path))
    if out.ok then return Mercurial.readStatus unresolved out.stdout
    throw (.statusUnknown path)

def baselineQuery : Backend → Text → List Text
  | .git => Git.baselineQuery
  | .mercurial => Mercurial.baselineQuery

def baseline (host : Host) (r : Repository) (path : Text) : Commands Failure (List Text) := do
  let out ← run host r (baselineQuery r.backend (← r.relativePath path))
  if out.ok then return out.stdout
  throw (.noBaseline r.backend)

end Hunkwise.Vcs.Repository
