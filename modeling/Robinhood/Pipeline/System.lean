/-
# Pipeline.System — the changelog of one MDT from the listener to the cursor

`ChangelogListener::spawn`, `run_polling_loop` and `process_acks` (`lustre-changelog/src/listener.rs`), the
channels between them and `LustreChangeSource` (`rbh-change-source/src/lib.rs`), and `ingest_loop`
(`rbh-daemon/src/changelog.rs`).  The listener blocks on a full channel of batches, the consumer on a full
channel of acknowledgements; the listener takes acknowledgements only between two drains.

A listener, a consumer and the two channels are a `Pipe`.  An ingest loop that ended leaves its listener
behind while the next pipe is already at work, so a `System` has a list of them, over one cursor and one
MDT.  Every access of the store is a step of its own; a crash leaves what is durable, and a statement that
was sent may still be executed after its client is gone.

The lists `applied` and `dropped` only record what happened.
-/
import Mathlib
import Robinhood.Daemon.Ingest

namespace Robinhood.Pipeline

open Relation Lib Store Changelog ChangeSource Ingest Daemon

/-! ## §1 — The parties -/

structure Setting where
  cfg : ListenerConfig
  rt : Runtime
  log : List RawRec
  increasing : log.Pairwise fun a b => a.index < b.index

/-- Where `run_polling_loop` goes on after a flush: in the drain from a position on, at the end of the
cycle, or at the end of the loop. -/
inductive AfterFlush where
  | draining (position : ℕ)
  | cycleEnd
  | shutdown

/-- Where the listener stands.  `last` says that `process_acks` is the one after the loop. -/
inductive Stage where
  | opening
  | draining (position : ℕ)
  | sending (batch : EventBatch) (next : AfterFlush)
  | takingAcks (last : Bool)
  | persisting (idx : Int64) (last : Bool)
  | clearing (idx : Int64) (last : Bool)
  | stopped

def AfterFlush.stage : AfterFlush → Stage
  | .draining position => .draining position
  | .cycleEnd => .takingAcks false
  | .shutdown => .takingAcks true

/-- What follows a send to a consumer that is gone: only the last flush goes on. -/
def AfterFlush.onClosed : AfterFlush → Stage
  | .shutdown => .takingAcks true
  | _ => .stopped

/-- What follows `process_acks`. -/
def afterAcks (last : Bool) : Stage := if last then .stopped else .opening

/-- The local variables of `run_polling_loop`. -/
structure Listener where
  batcher : EventBatcher
  acks : AckState
  nextStart : Int64
  stage : Stage

/-- Where `ingest_loop` stands: at `next_batch`; before the changes `todo` of a batch, with the number of
errors so far; inside `apply_event`; in what follows it; at `commit`. -/
inductive Consumer where
  | receiving (source : LustreChangeSource)
  | looping (source : LustreChangeSource) (batch : ChangeBatch) (todo : List Change) (errors : ℕ)
  | applying (source : LustreChangeSource) (batch : ChangeBatch) (todo : List Change) (errors : ℕ)
      (event : ChangelogEvent) (prog : DaemonProg (Except (Option StoreError) Bool))
  | finishing (source : LustreChangeSource) (batch : ChangeBatch) (todo : List Change) (errors : ℕ)
      (prog : DaemonProg ChangeOutcome)
  | committing (source : LustreChangeSource) (batch : ChangeBatch)
  | stopped

/-- **A listener and its consumer** with the two channels between them. -/
structure Pipe where
  listener : Listener
  consumer : Consumer
  events : List EventBatch
  acks : List EventAck

/-- What the pipes share: the tables, the indices passed to `clear_changelog`, the commits whose client is
gone; and the record of what was applied with `Ok` and of what the deduplicators dropped. -/
structure Shared where
  slice : Slice
  cleared : List Int64
  late : List UInt64
  applied : List UInt64
  dropped : List UInt64

structure System where
  shared : Shared
  pipes : List Pipe

variable (S : Setting)

def Shared.cursor (g : Shared) : Option UInt64 := g.slice.cursor S.cfg.mdt

/-! ## §2 — The listener -/

/-- `run_polling_loop` before its first cycle. -/
def Listener.start (cursor : Option UInt64) : Listener where
  batcher := .new S.cfg.mdt S.cfg.batcher
  acks := .start (startRec cursor)
  nextStart := startRec cursor
  stage := .opening

def Listener.flushThen (self : Listener) (next : AfterFlush) : Listener :=
  match self.batcher.flush with
  | (some batch, batcher) => { self with batcher, stage := .sending batch next }
  | (none, batcher) => { self with batcher, stage := next.stage }

/-- The body of the drain: a record that is accepted moves `next_start`. -/
def Listener.receive (self : Listener) (rec : RawRec) (pushedAt now : ℕ) : Listener :=
  let position := rec.index.toNat + 1
  match S.cfg.accept rec with
  | none => { self with stage := .draining position }
  | some env =>
    let (full, batcher) := self.batcher.push env pushedAt now
    let pushed := { self with batcher, nextStart := env.index.toInt64 + 1, stage := .draining position }
    if full then pushed.flushThen (.draining position) else pushed

def Shared.receive (g : Shared) (batcher : EventBatcher) (rec : RawRec) : Shared :=
  match S.cfg.accept rec with
  | none => g
  | some env => { g with dropped := g.dropped ++ (batcher.droppedBy env).map (·.index) }

/-- **What the MDT returns** to a reader at a position: no record before the next one is left out, unless it
was cleared. -/
structure Next (g : Shared) (position : ℕ) (rec : RawRec) : Prop where
  mem : rec ∈ S.log
  le : position ≤ rec.index.toNat
  next : ∀ r ∈ S.log, position ≤ r.index.toNat → r.index < rec.index →
    ∃ idx ∈ g.cleared, (r.index.toNat : ℤ) ≤ idx.toInt

def Pipe.setStage (q : Pipe) (stage : Stage) : Pipe := { q with listener := { q.listener with stage } }

/-- **The steps of the listener.** -/
inductive ListenerStep : Shared → Pipe → Shared → Pipe → Prop
  | cancelled (g q) : q.listener.stage = .opening →
      ListenerStep g q g { q with listener := q.listener.flushThen .shutdown }
  | opened (g q) : q.listener.stage = .opening →
      ListenerStep g q g (q.setStage (.draining q.listener.nextStart.toInt.toNat))
  | received (g q position rec pushedAt now) : q.listener.stage = .draining position →
      Next S g position rec →
      ListenerStep g q (g.receive S q.listener.batcher rec)
        { q with listener := q.listener.receive S rec pushedAt now }
  -- no record at the moment, or an error that is not an interruption
  | drained (g q position) : q.listener.stage = .draining position →
      ListenerStep g q g { q with listener := q.listener.flushThen .cycleEnd }
  | sent (g q batch next) : q.listener.stage = .sending batch next → q.consumer ≠ .stopped →
      q.events.length < S.cfg.channelBuffer →
      ListenerStep g q g { q.setStage next.stage with events := q.events ++ [batch] }
  | sendFailed (g q batch next) : q.listener.stage = .sending batch next → q.consumer = .stopped →
      ListenerStep g q g (q.setStage next.onClosed)
  | tookAck (g q ack acks last) : q.listener.stage = .takingAcks last → q.acks = ack :: acks →
      ListenerStep g q g
        { q with listener := { q.listener with acks := q.listener.acks.take ack }, acks := acks }
  | nothingPending (g q last) : q.listener.stage = .takingAcks last → q.acks = [] →
      q.listener.acks.pending = none → ListenerStep g q g (q.setStage (afterAcks last))
  | pending (g q idx last) : q.listener.stage = .takingAcks last → q.acks = [] →
      q.listener.acks.pending = some idx → ListenerStep g q g (q.setStage (.persisting idx last))
  | persisted (g q idx last now) : q.listener.stage = .persisting idx last →
      ListenerStep g q { g with slice := g.slice.commit S.cfg.mdt idx.toUInt64 now }
        (q.setStage (.clearing idx last))
  | persistFailed (g q idx last) : q.listener.stage = .persisting idx last →
      ListenerStep g q g (q.setStage (afterAcks last))
  -- an error although the statement was sent: it is executed later or never
  | persistLost (g q idx last) : q.listener.stage = .persisting idx last →
      ListenerStep g q { g with late := idx.toUInt64 :: g.late } (q.setStage (afterAcks last))
  -- `Ok`, or `EINVAL`
  | cleared (g q idx last) : q.listener.stage = .clearing idx last →
      ListenerStep g q { g with cleared := idx :: g.cleared }
        { q with listener := { q.listener with acks := ⟨idx, none⟩, stage := afterAcks last } }
  | clearFailed (g q idx last) : q.listener.stage = .clearing idx last →
      ListenerStep g q { g with cleared := idx :: g.cleared } (q.setStage (afterAcks last))
  | died (g q) : ListenerStep g q g (q.setStage .stopped)

/-! ## §3 — The consumer -/

variable {S} (rt : Runtime)

/-- `apply_event`, as the loop over the changes calls it. -/
def applyProgram (event : ChangelogEvent) (time : Int) : DaemonProg (Except (Option StoreError) Bool) := do
  let live : LustreMount ← answerTo .mount
  let clock ← answerTo .eventClock
  Prog.perform .update (applyEvent rt.filesystem live event time clock)

/-- What the loop makes of its answer: an entry that was touched is classified. -/
def afterApply (event : ChangelogEvent) : Except (Option StoreError) Bool → DaemonProg ChangeOutcome
  | .ok true => classifyTouched rt event.fid
  | .ok false => pure .fine
  | .error _ => pure .counted

/-- A batch that `next_batch` handed out. -/
def Consumer.enter (source : LustreChangeSource) (batch : ChangeBatch) : Consumer :=
  if batch.filesystem ≠ rt.filesystem then .stopped else .looping source batch batch.changes 0

def Consumer.begin (source : LustreChangeSource) (batch : ChangeBatch) (todo : List Change) (errors : ℕ)
    (change : Change) : Consumer :=
  if change.object.backend = .juiceFs then .finishing source batch todo errors (applyChange rt change)
  else match lustreEvent change with
    | .error _ => .stopped
    | .ok event => .applying source batch todo errors event (applyProgram rt event change.time)

def Consumer.after (source : LustreChangeSource) (batch : ChangeBatch) (todo : List Change) (errors : ℕ) :
    ChangeOutcome → Consumer
  | .fine => .looping source batch todo errors
  | .counted => .looping source batch todo (errors + 1)
  | .broken | .panicked => .stopped

def Consumer.done (source : LustreChangeSource) (batch : ChangeBatch) (errors : ℕ) : Consumer :=
  if errors = 0 then .committing source batch else .stopped

/-- An answer of `apply_event` is recorded for the position of its batch. -/
def Shared.answered (g : Shared) (batch : ChangeBatch) : Except (Option StoreError) Bool → Shared
  | .ok _ => { g with applied := batch.checkpoint.position :: g.applied }
  | .error _ => g

def Shared.setCatalog (g : Shared) (catalog : Catalog) : Shared := { g with slice.catalog := catalog }

variable (S)

/-- **The steps of the consumer.** -/
inductive ConsumerStep : Shared → Pipe → Shared → Pipe → Prop
  | handedOut (g q source batch ready) : q.consumer = .receiving source → source.pending = none →
      source.ready = batch :: ready →
      ConsumerStep g q g { q with consumer := .enter S.rt (source.handOut batch ready) batch }
  | received (g q source events batch ready rest) : q.consumer = .receiving source →
      source.pending = none → source.ready = [] → q.events = events :: rest →
      LustreChangeSource.batchesOf source.filesystem events = batch :: ready →
      ConsumerStep g q g
        { q with consumer := .enter S.rt (source.handOut batch ready) batch, events := rest }
  | pendingCheckpoint (g q source) : q.consumer = .receiving source → source.pending ≠ none →
      ConsumerStep g q g { q with consumer := .stopped }
  | closed (g q source) : q.consumer = .receiving source → source.ready = [] → q.events = [] →
      q.listener.stage = .stopped → ConsumerStep g q g { q with consumer := .stopped }
  | change (g q source batch change todo errors) :
      q.consumer = .looping source batch (change :: todo) errors →
      ConsumerStep g q g { q with consumer := .begin S.rt source batch todo errors change }
  | applyStep (g q source batch todo errors event prog prog' catalog) :
      q.consumer = .applying source batch todo errors event prog →
      Prog.Step (prog, g.slice.catalog) (prog', catalog) →
      ConsumerStep g q (g.setCatalog catalog)
        { q with consumer := .applying source batch todo errors event prog' }
  | answered (g q source batch todo errors event answer) :
      q.consumer = .applying source batch todo errors event (.ret answer) →
      ConsumerStep g q (g.answered batch answer)
        { q with consumer := .finishing source batch todo errors (afterApply S.rt event answer) }
  | finishStep (g q source batch todo errors prog prog' catalog) :
      q.consumer = .finishing source batch todo errors prog →
      Prog.Step (prog, g.slice.catalog) (prog', catalog) →
      ConsumerStep g q (g.setCatalog catalog)
        { q with consumer := .finishing source batch todo errors prog' }
  | finished (g q source batch todo errors outcome) :
      q.consumer = .finishing source batch todo errors (.ret outcome) →
      ConsumerStep g q g { q with consumer := .after source batch todo errors outcome }
  | allDone (g q source batch errors) : q.consumer = .looping source batch [] errors →
      ConsumerStep g q g { q with consumer := .done source batch errors }
  | committed (g q source batch) : q.consumer = .committing source batch →
      source.pending = some batch.checkpoint → q.listener.stage ≠ .stopped →
      q.acks.length < S.cfg.channelBuffer →
      ConsumerStep g q g
        { q with
          consumer := .receiving source.committed
          acks := q.acks ++ [⟨batch.checkpoint.source, batch.checkpoint.position⟩] }
  | commitFailed (g q source batch) : q.consumer = .committing source batch →
      source.pending ≠ some batch.checkpoint ∨ q.listener.stage = .stopped →
      ConsumerStep g q g { q with consumer := .stopped }
  -- a cancellation, or the end of the task
  | died (g q) : ConsumerStep g q g { q with consumer := .stopped }

/-! ## §4 — The whole -/

/-- `ChangelogListener::spawn` and `LustreChangeSource::new`. -/
def Pipe.start (cursor : Option UInt64) : Pipe where
  listener := .start S cursor
  consumer := .receiving (.new S.rt.filesystem)
  events := []
  acks := []

/-- **One step of the whole.**  The catalog and the cursors of other MDTs are anybody's. -/
inductive Step : System → System → Prop
  | spawned (s) :
      Step s { s with pipes := s.pipes ++ [.start S (s.shared.cursor S)] }
  | listener (s i q g q') : s.pipes[i]? = some q → ListenerStep S s.shared q g q' →
      Step s ⟨g, s.pipes.set i q'⟩
  | consumer (s i q g q') : s.pipes[i]? = some q → ConsumerStep S s.shared q g q' →
      Step s ⟨g, s.pipes.set i q'⟩
  | crashed (s) : Step s { s with pipes := [] }
  | lateCommit (s idx now) : idx ∈ s.shared.late →
      Step s { s with shared.slice := s.shared.slice.commit S.cfg.mdt idx now }
  | others (s) (slice : Slice) : slice.cursor S.cfg.mdt = s.shared.cursor S →
      Step s { s with shared.slice := slice }

/-- Nothing has happened yet. -/
def System.start (slice : Slice) : System := ⟨⟨slice, [], [], [], []⟩, []⟩

/-- **The states of all runs** from tables that have no cursor of the MDT. -/
def Reaches (s : System) : Prop :=
  ∃ slice : Slice, slice.cursor S.cfg.mdt = none ∧ ReflTransGen (Step S) (.start slice) s

end Robinhood.Pipeline
