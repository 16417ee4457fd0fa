/-
# ChangeSource.Batch — what a change source hands out

A change source gives the daemon batches of changes of one filesystem, each with the position that is
acknowledged once the batch is in the catalog, or an error.
-/
import Mathlib
import Robinhood.Agent.Server
import Robinhood.Ingest.Change

namespace Robinhood.ChangeSource

open Agent Store Ingest

/-- `Checkpoint`: a position of a stream of changes. -/
structure Checkpoint where
  source : String
  position : UInt64
  deriving DecidableEq, Repr

/-- `ChangeBatch`. -/
structure ChangeBatch where
  filesystem : FileSystemId
  changes : List Change
  checkpoint : Checkpoint

/-- `ChangeSourceError`. -/
inductive ChangeSourceError
  | closed
  | commitChannelClosed
  | pendingCheckpoint
  | wrongSource (expected actual : Checkpoint)
  | transport
  | rpc (status : Status)
  | retentionGap (reason : String)
  | malformedRecord (text : String)
  | wrongVolume (expected actual : String)
  | outOfOrder (last : UInt64) (actual : Int64)
  deriving DecidableEq, Repr

end Robinhood.ChangeSource
