/-
# Changelog.Listener — batches, acknowledgements and the state of a listener

`lustre-changelog/src/batcher.rs` and the state of `listener.rs`.  A batcher collects the records of one
window in a deduplicator and says when the window is full; `process_acks` takes the acknowledgements of the
consumer and keeps the largest that is still to be persisted and cleared.
-/
import Mathlib
import Robinhood.Changelog.Dedup
import Robinhood.Changelog.Parse

namespace Robinhood.Changelog

/-! ## §1 — The batcher -/

/-- **`EventBatch`.** -/
structure EventBatch where
  mdt : String
  events : List ChangelogEventEnvelope
  minIndex : UInt64
  maxIndex : UInt64
deriving DecidableEq, Repr

/-- `BatcherConfig`; times are in nanoseconds. -/
structure BatcherConfig where
  flushInterval : ℕ
  flushBatchSize : ℕ
  pendingSoftCap : ℕ
deriving DecidableEq, Repr

/-- **`EventBatcher`.** -/
structure EventBatcher where
  mdt : String
  dedup : Deduplicator
  cfg : BatcherConfig
  /-- when the first event since the last flush was pushed -/
  windowStart : Option ℕ

namespace EventBatcher

/-- `EventBatcher::new`. -/
def new (mdt : String) (cfg : BatcherConfig) : EventBatcher := ⟨mdt, .new, cfg, none⟩

/-- `EventBatcher::should_flush`, at the time it reads. -/
def shouldFlush (self : EventBatcher) (now : ℕ) : Bool :=
  let pending := self.dedup.pending
  pending != 0 && (self.cfg.flushBatchSize ≤ pending || self.cfg.pendingSoftCap ≤ pending ||
    self.windowStart.any fun start => self.cfg.flushInterval ≤ now - start)

/-- **`EventBatcher::push`**: the clock is read for the start of the window, and again for its age. -/
def push (self : EventBatcher) (env : ChangelogEventEnvelope) (pushedAt now : ℕ) : Bool × EventBatcher :=
  let pushed := { self with
    dedup := (self.dedup.push env).2
    windowStart := some (self.windowStart.getD pushedAt) }
  (pushed.shouldFlush now, pushed)

/-- **`EventBatcher::flush`.** -/
def flush (self : EventBatcher) : Option EventBatch × EventBatcher :=
  let (events, dedup) := self.dedup.drain
  (if events = [] then none
    else some ⟨self.mdt, events, (events.head?.map (·.index)).getD 0, (events.getLast?.map (·.index)).getD 0⟩,
    { self with dedup, windowStart := none })

def droppedBy (self : EventBatcher) (env : ChangelogEventEnvelope) : List ChangelogEventEnvelope :=
  (self.dedup.drain.1 ++ [env]).filter fun e => e ∉ (self.dedup.push env).2.drain.1

end EventBatcher

/-! ## §2 — The listener -/

/-- `ListenerConfig` of a listener that polls. -/
structure ListenerConfig where
  mdt : String
  readerId : String
  batcher : BatcherConfig
  channelBuffer : ℕ
  ignoredTypes : List ChangelogEventType

/-- What the drain loop makes of a record: the event to push, or none for one that is ignored, of a type
without events, or broken. -/
def ListenerConfig.accept (cfg : ListenerConfig) (rec : RawRec) : Option ChangelogEventEnvelope :=
  if rec.eventType ∈ cfg.ignoredTypes then none
  else match parseEvent cfg.mdt rec with
    | .ok env => env
    | .error _ => none

theorem ListenerConfig.accept_index {cfg : ListenerConfig} {rec : RawRec} {env : ChangelogEventEnvelope}
    (h : cfg.accept rec = some env) : env.index = rec.index := by
  unfold accept at h
  split_ifs at h
  split at h
  · next parsed hparsed =>
    rw [h] at hparsed
    exact parseEvent_index hparsed
  · cases h

/-- `EventAck`. -/
structure EventAck where
  mdt : String
  committedIndex : UInt64
deriving DecidableEq, Repr

/-- **`AckState`.** -/
structure AckState where
  lastCleared : Int64
  pending : Option Int64
deriving DecidableEq

def AckState.start (startRec : Int64) : AckState where
  lastCleared := -1
  pending := if 0 < startRec then some (startRec - 1) else none

/-- What `process_acks` makes of one acknowledgement: the larger is kept. -/
def AckState.take (self : AckState) (ack : EventAck) : AckState :=
  let idx := ack.committedIndex.toInt64
  if self.lastCleared < idx ∧ self.pending.all (fun pending => pending < idx) then
    { self with pending := some idx }
  else self

def startRec (cursor : Option UInt64) : Int64 :=
  match cursor with
  | some pos => pos.toInt64 + 1
  | none => 0

def From (start : Int64) (rec : RawRec) : Prop := start.toInt ≤ rec.index.toNat

instance (start : Int64) (rec : RawRec) : Decidable (From start rec) :=
  inferInstanceAs (Decidable (_ ≤ _))

end Robinhood.Changelog
