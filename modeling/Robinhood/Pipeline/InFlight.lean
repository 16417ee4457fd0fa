/-
# Pipeline.InFlight — the records between the changelog and the acknowledgements

What a pipe read and did not acknowledge yet stands, in this order, with the consumer, in the channel of
batches, in the batch that is being sent, and in the window of the deduplicator.  A step moves records from
one place to the next and changes the order of none of them (`inFlight_flushThen`, `inFlight_sent`,
`inFlight_received`, `inFlight_committed`); only a push adds one.
-/
import Mathlib
import Robinhood.Pipeline.System

namespace Robinhood.Pipeline

open Relation Lib Store Changelog ChangeSource Ingest Daemon

/-! ## §1 — Where a record may be -/

def Consumer.held : Consumer → List ChangeBatch
  | .receiving source => source.ready
  | .looping source batch .. | .applying source batch .. | .finishing source batch ..
  | .committing source batch => batch :: source.ready
  | .stopped => []

def Stage.held : Stage → List ChangelogEventEnvelope
  | .sending batch _ => batch.events
  | _ => []

def Listener.window (l : Listener) : List ChangelogEventEnvelope := l.batcher.dedup.drain.1

def positionOf (batch : ChangeBatch) : ℕ := batch.checkpoint.position.toNat

def indexOf (env : ChangelogEventEnvelope) : ℕ := env.index.toNat

def Listener.held (l : Listener) : List ℕ := (l.stage.held ++ l.window).map indexOf

def Pipe.rear (q : Pipe) : List ℕ := (q.events.flatMap EventBatch.events).map indexOf ++ q.listener.held

/-- **The indices in flight**, the oldest first. -/
def Pipe.inFlight (q : Pipe) : List ℕ := q.consumer.held.map positionOf ++ q.rear

/-! ## §2 — The form of what is in flight -/

/-- The window: the pending records came in index order, before the position of the drain; outside of a
drain there are none. -/
def Window (l : Listener) : Prop :=
  ∃ kept, l.batcher.dedup.Pends kept ∧ kept.Pairwise (fun a b => a.index < b.index) ∧
    match l.stage with
    | .draining position => ∀ env ∈ kept, env.index.toNat < position
    | .stopped => True
    | _ => kept = []

def Consumer.TodoOk : Consumer → Prop
  | .looping _ batch todo errors => todo = batch.changes ∧ errors = 0 ∨ todo = []
  | .applying _ _ todo .. | .finishing _ _ todo .. => todo = []
  | _ => True

/-- **The form of a pipe**: batches of the source are of one event, those of the listener are not empty. -/
structure Shape (q : Pipe) : Prop where
  single : ∀ batch ∈ q.consumer.held, ∃ filesystem env, batch = LustreChangeSource.single filesystem env
  todo : q.consumer.TodoOk
  events : ∀ batch ∈ q.events, batch.events ≠ []
  sending : ∀ batch next, q.listener.stage = .sending batch next → batch.events ≠ []
  window : Window q.listener

theorem Window.eq_nil {l : Listener} (h : Window l) (hdrain : ∀ position, l.stage ≠ .draining position)
    (hstopped : l.stage ≠ .stopped) : l.window = [] := by
  obtain ⟨kept, hpends, hsorted, hstage⟩ := h
  rw [Listener.window, Deduplicator.drain_eq hpends hsorted]
  cases hs : l.stage with
  | draining position => exact absurd hs (hdrain position)
  | stopped => exact absurd hs hstopped
  | _ =>
    rw [hs] at hstage
    exact hstage

theorem window_of_new {l : Listener} (hnew : l.batcher.dedup.Pends []) : Window l := by
  refine ⟨[], hnew, .nil, ?_⟩
  split
  · simp
  · trivial
  · rfl

theorem Window.setStage {l : Listener} {stage : Stage} (h : Window l)
    (hdrain : ∀ position, l.stage ≠ .draining position) (hstopped : l.stage ≠ .stopped) :
    Window { l with stage } := by
  obtain ⟨kept, hpends, hsorted, hstage⟩ := h
  have hkept : kept = [] := by
    cases hs : l.stage with
    | draining position => exact absurd hs (hdrain position)
    | stopped => exact absurd hs hstopped
    | _ =>
      rw [hs] at hstage
      exact hstage
  subst hkept
  exact window_of_new hpends

/-! ## §3 — The listener's moves -/

section Flush

variable (l : Listener) (next : AfterFlush)

/-- **A flush** empties the window, and what was in it is sent. -/
theorem flushThen_cases :
    (l.window = [] ∧ l.flushThen next =
        { l with batcher := { l.batcher with dedup := .new, windowStart := none }, stage := next.stage }) ∨
      ∃ batch : EventBatch, batch.events = l.window ∧ l.window ≠ [] ∧ l.flushThen next =
        { l with
          batcher := { l.batcher with dedup := .new, windowStart := none }
          stage := .sending batch next } := by
  unfold Listener.flushThen EventBatcher.flush Listener.window
  by_cases hempty : l.batcher.dedup.drain.1 = []
  · left
    simp only [hempty, if_true]
    exact ⟨trivial, rfl⟩
  · right
    simp only [hempty, if_false]
    exact ⟨_, rfl, hempty, rfl⟩

theorem flushThen_nextStart : (l.flushThen next).nextStart = l.nextStart := by
  obtain ⟨-, h⟩ | ⟨batch, -, -, h⟩ := flushThen_cases l next <;> rw [h]

theorem held_flushThen (hstage : l.stage.held = []) : (l.flushThen next).held = l.held := by
  unfold Listener.held
  obtain ⟨hempty, h⟩ | ⟨batch, hbatch, -, h⟩ := flushThen_cases l next
  · rw [h, hstage, hempty]
    cases next <;> rfl
  · rw [h, hstage, ← hbatch, List.nil_append]
    exact congrArg (List.map indexOf) (List.append_nil _)

theorem window_flushThen : Window (l.flushThen next) := by
  obtain ⟨-, h⟩ | ⟨batch, -, -, h⟩ := flushThen_cases l next <;>
    rw [h] <;> exact window_of_new Deduplicator.pends_new

theorem sending_flushThen (batch : EventBatch) (after : AfterFlush)
    (hstage : (l.flushThen next).stage = .sending batch after) : batch.events ≠ [] := by
  obtain ⟨-, h⟩ | ⟨batch', hbatch, hne, h⟩ := flushThen_cases l next
  · rw [h] at hstage
    cases next <;> cases hstage
  · rw [h] at hstage
    cases hstage
    rwa [hbatch]

end Flush

/-- The listener after a push, before it looks whether the window is full. -/
def Listener.push (l : Listener) (rec : RawRec) (env : ChangelogEventEnvelope) (pushedAt now : ℕ) :
    Listener :=
  { l with
    batcher := (l.batcher.push env pushedAt now).2
    nextStart := env.index.toInt64 + 1
    stage := .draining (rec.index.toNat + 1) }

theorem receive_of_none {S : Setting} {l : Listener} {rec : RawRec} {pushedAt now : ℕ}
    (h : S.cfg.accept rec = none) :
    l.receive S rec pushedAt now = { l with stage := .draining (rec.index.toNat + 1) } := by
  simp only [Listener.receive, h]

theorem receive_of_some {S : Setting} {l : Listener} {rec : RawRec} {env : ChangelogEventEnvelope}
    {pushedAt now : ℕ} (h : S.cfg.accept rec = some env) :
    l.receive S rec pushedAt now =
      if (l.batcher.push env pushedAt now).1 then
        (l.push rec env pushedAt now).flushThen (.draining (rec.index.toNat + 1))
      else l.push rec env pushedAt now := by
  simp only [Listener.receive, h]
  rfl

/-- **A push**: the window gains the record or not, and loses some; what is missing was dropped. -/
theorem Window.push {l : Listener} (h : Window l) {rec : RawRec} {env : ChangelogEventEnvelope}
    {position : ℕ} (pushedAt now : ℕ) (hstage : l.stage = .draining position)
    (hindex : env.index = rec.index) (hle : position ≤ rec.index.toNat) :
    Window (l.push rec env pushedAt now) ∧
      (l.push rec env pushedAt now).window.Sublist (l.window ++ [env]) ∧
      (l.window ++ [env]).Pairwise (fun a b => a.index < b.index) ∧
      ∀ e ∈ l.window ++ [env], e ∉ (l.push rec env pushedAt now).window →
        e ∈ l.batcher.droppedBy env := by
  obtain ⟨kept, hpends, hsorted, hbound⟩ := h
  rw [hstage] at hbound
  have hwindow : l.window = kept := Deduplicator.drain_eq hpends hsorted
  obtain ⟨kept', hpends', hsub, -, -⟩ := hpends.push env
  have hall : (kept ++ [env]).Pairwise fun a b => a.index < b.index := by
    refine List.pairwise_append.2 ⟨hsorted, List.pairwise_singleton _ _, fun a ha b hb => ?_⟩
    rw [List.mem_singleton.1 hb, hindex]
    exact UInt64.lt_iff_toNat_lt.2 ((hbound a ha).trans_le hle)
  have hsorted' := hall.sublist hsub
  have hwindow' : (l.push rec env pushedAt now).window = kept' := Deduplicator.drain_eq hpends' hsorted'
  refine ⟨⟨kept', hpends', hsorted', fun e he => ?_⟩, ?_, ?_, fun e he hgone => ?_⟩
  · obtain hold | hnew := List.mem_append.1 (hsub.subset he)
    · exact Nat.lt_succ_of_lt ((hbound e hold).trans_le hle)
    · rw [List.mem_singleton.1 hnew, hindex]
      exact Nat.lt_succ_self _
  · rw [hwindow', hwindow]
    exact hsub
  · rw [hwindow]
    exact hall
  · exact List.mem_filter.2 ⟨he, decide_eq_true hgone⟩

theorem Window.skip {l : Listener} (h : Window l) {position position' : ℕ}
    (hstage : l.stage = .draining position) (hle : position ≤ position') :
    Window { l with stage := .draining position' } := by
  obtain ⟨kept, hpends, hsorted, hbound⟩ := h
  rw [hstage] at hbound
  exact ⟨kept, hpends, hsorted, fun env henv => (hbound env henv).trans_le hle⟩

/-! ## §4 — The consumer's moves -/

theorem positions_batchesOf (filesystem : FileSystemId) {batch : EventBatch} (h : batch.events ≠ []) :
    (LustreChangeSource.batchesOf filesystem batch).map positionOf = batch.events.map indexOf := by
  rw [LustreChangeSource.batchesOf, if_neg h, List.map_map]
  rfl

theorem single_of_mem_batchesOf {filesystem : FileSystemId} {batch : EventBatch} (h : batch.events ≠ [])
    {b : ChangeBatch} (hb : b ∈ LustreChangeSource.batchesOf filesystem batch) :
    ∃ filesystem env, b = LustreChangeSource.single filesystem env := by
  rw [LustreChangeSource.batchesOf, if_neg h] at hb
  obtain ⟨env, -, rfl⟩ := List.mem_map.1 hb
  exact ⟨filesystem, env, rfl⟩

theorem held_enter {rt : Runtime} {source : LustreChangeSource} {batch : ChangeBatch}
    {ready : List ChangeBatch} (h : Consumer.enter rt (source.handOut batch ready) batch ≠ .stopped) :
    Consumer.enter rt (source.handOut batch ready) batch =
        .looping (source.handOut batch ready) batch batch.changes 0 ∧
      (Consumer.enter rt (source.handOut batch ready) batch).held = batch :: ready := by
  unfold Consumer.enter at h ⊢
  split_ifs at h ⊢
  · exact absurd rfl h
  · exact ⟨rfl, rfl⟩

theorem backend_normalizeLustre (event : ChangelogEvent) (time : Int) :
    (normalizeLustre event time).object.backend = .lustre := by
  cases event <;> rfl

/-- **A Lustre change enters `apply_event`.** -/
theorem begin_normalizeLustre (rt : Runtime) (source : LustreChangeSource) (batch : ChangeBatch)
    (todo : List Change) (errors : ℕ) (event : ChangelogEvent) (time : Int) :
    ∃ event', lustreEvent (normalizeLustre event time) = .ok event' ∧
      Consumer.begin rt source batch todo errors (normalizeLustre event time) =
        .applying source batch todo errors event' (applyProgram rt event' (normalizeLustre event time).time) := by
  have hlustre : (normalizeLustre event time).object.backend ≠ .juiceFs := by
    rw [backend_normalizeLustre]
    exact nofun
  have hevent : ∃ event', lustreEvent (normalizeLustre event time) = .ok event' := by
    cases event with
    | close =>
      rw [normalizeLustre]
      split_ifs <;> exact ⟨_, rfl⟩
    | _ => exact ⟨_, rfl⟩
  obtain ⟨event', hevent⟩ := hevent
  refine ⟨event', hevent, ?_⟩
  rw [Consumer.begin, if_neg hlustre, hevent]

/-! ## §5 — The form is kept -/

section Kept

variable {S : Setting} {g g' : Shared} {q q' : Pipe}

theorem Shape.withListener (h : Shape q) {l : Listener} (hwindow : Window l)
    (hsending : ∀ batch next, l.stage = .sending batch next → batch.events ≠ []) :
    Shape { q with listener := l } :=
  { h with sending := hsending, window := hwindow }

theorem Shape.setStage (h : Shape q) {stage : Stage} (hdrain : ∀ p, q.listener.stage ≠ .draining p)
    (hstopped : q.listener.stage ≠ .stopped) (hheld : ∀ batch next, stage ≠ .sending batch next) :
    Shape (q.setStage stage) :=
  h.withListener (h.window.setStage hdrain hstopped) fun batch next hs => absurd hs (hheld batch next)

theorem afterAcks_ne_sending (last : Bool) (batch : EventBatch) (next : AfterFlush) :
    afterAcks last ≠ .sending batch next := by
  cases last <;> exact nofun

theorem onClosed_ne_sending (after : AfterFlush) (batch : EventBatch) (next : AfterFlush) :
    after.onClosed ≠ .sending batch next := by
  cases after <;> exact nofun

theorem stage_ne_sending (after : AfterFlush) (batch : EventBatch) (next : AfterFlush) :
    after.stage ≠ .sending batch next := by
  cases after <;> exact nofun

theorem Shape.receive (h : Shape q) {rec : RawRec} {position pushedAt now : ℕ}
    (hstage : q.listener.stage = .draining position) (hle : position ≤ rec.index.toNat) :
    Shape { q with listener := q.listener.receive S rec pushedAt now } := by
  cases haccept : S.cfg.accept rec with
  | none =>
    rw [receive_of_none haccept]
    exact h.withListener (h.window.skip hstage (hle.trans (Nat.le_succ _))) nofun
  | some =>
    rw [receive_of_some haccept]
    split_ifs
    · exact h.withListener (window_flushThen _ _) (sending_flushThen _ _)
    · exact h.withListener (h.window.push _ _ hstage (S.cfg.accept_index haccept) hle).1 nofun

theorem ListenerStep.shape (hstep : ListenerStep S g q g' q') (h : Shape q) : Shape q' := by
  cases hstep with
  | cancelled => exact h.withListener (window_flushThen _ _) (sending_flushThen _ _)
  | opened hstage =>
    exact h.setStage (by simp [hstage]) (by simp [hstage]) nofun
  | received position rec pushedAt now hstage hnext => exact h.receive hstage hnext.le
  | drained => exact h.withListener (window_flushThen _ _) (sending_flushThen _ _)
  | sent batch next hstage _ _ =>
    have hset := h.setStage (by simp [hstage]) (by simp [hstage]) (stage_ne_sending next)
    refine { hset with events := fun b hb => ?_ }
    obtain hb | hb := List.mem_append.1 hb
    · exact h.events b hb
    · rw [List.mem_singleton.1 hb]
      exact h.sending batch next hstage
  | sendFailed batch next hstage =>
    exact h.setStage (by simp [hstage]) (by simp [hstage]) (onClosed_ne_sending next)
  | tookAck => exact { h with }
  | nothingPending last hstage =>
    exact h.setStage (by simp [hstage]) (by simp [hstage]) (afterAcks_ne_sending last)
  | pending _ _ hstage | persisted _ _ _ hstage =>
    exact h.setStage (by simp [hstage]) (by simp [hstage]) nofun
  | persistFailed _ last hstage | persistLost _ last hstage =>
    exact h.setStage (by simp [hstage]) (by simp [hstage]) (afterAcks_ne_sending last)
  | cleared idx last hstage =>
    have hset := h.setStage (by simp [hstage]) (by simp [hstage]) (afterAcks_ne_sending last)
    exact { hset with }
  | clearFailed idx last hstage =>
    exact h.setStage (by simp [hstage]) (by simp [hstage]) (afterAcks_ne_sending last)
  | died =>
    obtain ⟨kept, hpends, hsorted, -⟩ := h.window
    exact h.withListener ⟨kept, hpends, hsorted, trivial⟩ nofun

theorem Shape.withConsumer (h : Shape q) {c : Consumer} {events : List EventBatch} {acks : List EventAck}
    (hsingle : ∀ batch ∈ c.held, ∃ filesystem env, batch = LustreChangeSource.single filesystem env)
    (htodo : c.TodoOk) (hevents : ∀ batch ∈ events, batch ∈ q.events) :
    Shape { q with consumer := c, events := events, acks := acks } :=
  { h with single := hsingle, todo := htodo, events := fun b hb => h.events b (hevents b hb) }

theorem Shape.stop (h : Shape q) : Shape { q with consumer := .stopped } :=
  h.withConsumer (c := .stopped) nofun trivial fun _ => id

theorem Shape.goOn (h : Shape q) {c d : Consumer} (hc : q.consumer = c) (hheld : d.held = c.held)
    (htodo : c.TodoOk → d.TodoOk) : Shape { q with consumer := d } := by
  subst hc
  exact h.withConsumer (fun b hb => h.single b (hheld ▸ hb)) (htodo h.todo) fun _ => id

theorem Shape.enter (h : Shape q) {source : LustreChangeSource} {batch : ChangeBatch}
    {ready : List ChangeBatch} {events : List EventBatch}
    (hsingle : ∀ b ∈ batch :: ready, ∃ filesystem env, b = LustreChangeSource.single filesystem env)
    (hevents : ∀ b ∈ events, b ∈ q.events) :
    Shape { q with consumer := .enter S.rt (source.handOut batch ready) batch, events := events } := by
  unfold Consumer.enter
  split_ifs
  · exact h.withConsumer (c := .stopped) nofun trivial hevents
  · exact h.withConsumer (c := .looping ..) hsingle (.inl ⟨rfl, rfl⟩) hevents

theorem ConsumerStep.shape (hstep : ConsumerStep S g q g' q') (h : Shape q) : Shape q' := by
  cases hstep with
  | handedOut source batch ready hc _ hready =>
    refine h.enter (fun b hb => h.single b ?_) fun _ => id
    rw [hc]
    show b ∈ source.ready
    rwa [hready]
  | received source events batch ready rest hc _ hready hevents hbatches =>
    have hne : events.events ≠ [] := h.events events (hevents ▸ List.mem_cons_self)
    refine h.enter (fun b hb => single_of_mem_batchesOf hne (hbatches ▸ hb)) fun b hb => ?_
    rw [hevents]
    exact List.mem_cons_of_mem _ hb
  | pendingCheckpoint | closed => exact h.stop
  | change source batch change todo errors hc =>
    have htodo := h.todo
    have hsingle := h.single
    rw [hc] at htodo hsingle
    obtain ⟨filesystem, env, rfl⟩ := hsingle batch List.mem_cons_self
    obtain ⟨hchange, rfl⟩ | hnil := htodo
    · obtain ⟨rfl, rfl⟩ := List.cons.inj hchange
      obtain ⟨event', -, hbegin⟩ := begin_normalizeLustre S.rt source
        (LustreChangeSource.single filesystem env) [] 0 env.event env.time
      rw [hbegin]
      exact h.goOn (d := .applying ..) hc rfl fun _ => rfl
    · cases hnil
  | applyStep source batch todo errors event prog prog' catalog hc =>
    exact h.goOn (d := .applying ..) hc rfl id
  | answered _ _ _ _ _ _ hc | finishStep _ _ _ _ _ _ _ hc => exact h.goOn (d := .finishing ..) hc rfl id
  | finished source batch todo errors outcome hc =>
    cases outcome with
    | fine | counted => exact h.goOn (d := .looping ..) hc rfl .inr
    | broken | panicked => exact h.stop
  | allDone source batch errors hc =>
    unfold Consumer.done
    split_ifs
    · exact h.goOn (d := .committing ..) hc rfl fun _ => trivial
    · exact h.stop
  | committed source batch hc _ _ _ =>
    refine h.withConsumer (c := .receiving ..) (fun b hb => h.single b ?_) trivial fun _ => id
    rw [hc]
    exact List.mem_cons_of_mem _ hb
  | commitFailed | died => exact h.stop

theorem Shape.start (cursor : Option UInt64) : Shape (.start S cursor) where
  single := nofun
  todo := trivial
  events := nofun
  sending := nofun
  window := window_of_new Deduplicator.pends_new

end Kept

/-! ## §6 — What a step does to what is in flight -/

def Stage.position : Stage → Option ℕ
  | .draining position | .sending _ (.draining position) => some position
  | _ => none

theorem AfterFlush.position_stage (next : AfterFlush) (batch : EventBatch) :
    (Stage.sending batch next).position = next.stage.position := by
  cases next <;> rfl

theorem position_flushThen (l : Listener) (next : AfterFlush) :
    (l.flushThen next).stage.position = next.stage.position := by
  obtain ⟨-, h⟩ | ⟨batch, -, -, h⟩ := flushThen_cases l next
  · rw [h]
  · rw [h]
    exact next.position_stage batch

theorem position_afterAcks (last : Bool) : (afterAcks last).position = none := by
  cases last <;> rfl

theorem held_afterAcks (last : Bool) : (afterAcks last).held = [] := by
  cases last <;> rfl

/-- **A step of the listener**, seen from what is in flight.  It leaves it as it is; or the drain passes a
record that is not accepted; or it pushes one, and the window loses what is dropped; or the listener is gone
and the rear is lost. -/
inductive ListenerMove (S : Setting) (g : Shared) (q : Pipe) (g' : Shared) (q' : Pipe) : Prop
  | quiet : q.listener.stage ≠ .stopped → q'.inFlight = q.inFlight →
      q'.listener.nextStart = q.listener.nextStart →
      (∀ p, q'.listener.stage.position = some p →
        q.listener.stage.position = some p ∨ p = q.listener.nextStart.toInt.toNat) →
      ListenerMove S g q g' q'
  | skipped (position rec) : q.listener.stage.position = some position → Next S g position rec →
      S.cfg.accept rec = none → q'.inFlight = q.inFlight →
      q'.listener.nextStart = q.listener.nextStart →
      q'.listener.stage.position = some (rec.index.toNat + 1) → ListenerMove S g q g' q'
  | pushed (position rec env) (front : List ℕ) (window window' : List ChangelogEventEnvelope) :
      q.listener.stage.position = some position → Next S g position rec →
      S.cfg.accept rec = some env → q.inFlight = front ++ window.map indexOf →
      q'.inFlight = front ++ window'.map indexOf → window'.Sublist (window ++ [env]) →
      (window ++ [env]).Pairwise (fun a b => a.index < b.index) →
      (∀ e ∈ window ++ [env], e ∉ window' → e.index ∈ g'.dropped) →
      q'.listener.nextStart = rec.index.toInt64 + 1 →
      q'.listener.stage.position = some (rec.index.toNat + 1) → ListenerMove S g q g' q'
  | gone (lost : List ℕ) : q.inFlight = q'.inFlight ++ lost → q'.listener.stage = .stopped →
      ListenerMove S g q g' q'

section Moves

variable {S : Setting} {g g' : Shared} {q q' : Pipe}

theorem inFlight_setListener {l : Listener} (h : l.held = q.listener.held) :
    ({ q with listener := l } : Pipe).inFlight = q.inFlight := by
  simp only [Pipe.inFlight, Pipe.rear, h]

theorem inFlight_setStage {stage : Stage} (hold : q.listener.stage.held = []) (hnew : stage.held = []) :
    (q.setStage stage).inFlight = q.inFlight := by
  refine inFlight_setListener ?_
  rw [Listener.held, Listener.held, hold]
  exact congrArg (fun held => (held ++ q.listener.window).map indexOf) hnew

theorem ListenerMove.idle {l : Listener} {stage : Stage} (hstage : q.listener.stage = stage)
    (hrun : stage ≠ .stopped) (hold : stage.held = []) (hbatcher : l.batcher = q.listener.batcher)
    (hstart : l.nextStart = q.listener.nextStart) (hnew : l.stage.held = [])
    (hposition : l.stage.position = none) : ListenerMove S g q g' { q with listener := l } := by
  subst hstage
  refine .quiet hrun (inFlight_setListener ?_) hstart fun p hp => absurd (hp.symm.trans hposition) nofun
  rw [Listener.held, Listener.held, Listener.window, Listener.window, hbatcher, hold, hnew]

theorem ListenerMove.flush {stage : Stage} {next : AfterFlush} (hstage : q.listener.stage = stage)
    (hrun : stage ≠ .stopped) (hold : stage.held = []) (hposition : next.stage.position = none) :
    ListenerMove S g q g' { q with listener := q.listener.flushThen next } := by
  subst hstage
  refine .quiet hrun (inFlight_setListener (held_flushThen _ _ hold)) (flushThen_nextStart _ _) fun p hp => ?_
  rw [position_flushThen, hposition] at hp
  cases hp

theorem inFlight_sent (h : Shape q) {batch : EventBatch} {next : AfterFlush}
    (hstage : q.listener.stage = .sending batch next) :
    ({ q.setStage next.stage with events := q.events ++ [batch] } : Pipe).inFlight = q.inFlight := by
  have hwindow : q.listener.window = [] :=
    h.window.eq_nil (by simp [hstage]) (by simp [hstage])
  have hnext : next.stage.held = [] := by cases next <;> rfl
  have hset : ({ q.listener with stage := next.stage } : Listener).held = [] := by
    rw [Listener.held]
    exact congrArg (List.map indexOf) (List.append_eq_nil_iff.2 ⟨hnext, hwindow⟩)
  have hheld : q.listener.held = batch.events.map indexOf := by
    rw [Listener.held, hwindow, hstage, List.append_nil]
    rfl
  show _ ++ (((q.events ++ [batch]).flatMap EventBatch.events).map indexOf ++
    ({ q.listener with stage := next.stage } : Listener).held) = _
  rw [hset, Pipe.inFlight, Pipe.rear, hheld, List.append_nil, List.flatMap_append, List.map_append,
    List.flatMap_singleton]
  rfl

/-- **A record is read.** -/
theorem ListenerMove.receive (h : Shape q) {position : ℕ} {rec : RawRec} (pushedAt now : ℕ)
    (hstage : q.listener.stage = .draining position) (hnext : Next S g position rec) :
    ListenerMove S g q (g.receive S q.listener.batcher rec)
      { q with listener := q.listener.receive S rec pushedAt now } := by
  have hheld : q.listener.stage.held = [] := by
    rw [hstage]
    rfl
  have hposition : q.listener.stage.position = some position := by
    rw [hstage]
    rfl
  cases haccept : S.cfg.accept rec with
  | none =>
    rw [receive_of_none haccept]
    exact .skipped position rec hposition hnext haccept (inFlight_setStage hheld rfl) rfl rfl
  | some env =>
    have hindex := S.cfg.accept_index haccept
    obtain ⟨-, hsub, hsorted, hdropped⟩ :=
      h.window.push pushedAt now hstage hindex hnext.le
    have hold : q.inFlight = (q.consumer.held.map positionOf ++
        (q.events.flatMap EventBatch.events).map indexOf) ++ q.listener.window.map indexOf := by
      rw [Pipe.inFlight, Pipe.rear, Listener.held, hheld, List.nil_append, List.append_assoc]
    -- a flush right after the push changes nothing of this
    have hlistener : (q.listener.receive S rec pushedAt now).held =
          (q.listener.push rec env pushedAt now).window.map indexOf ∧
        (q.listener.receive S rec pushedAt now).nextStart = env.index.toInt64 + 1 ∧
        (q.listener.receive S rec pushedAt now).stage.position = some (rec.index.toNat + 1) := by
      rw [receive_of_some haccept]
      split_ifs
      · exact ⟨held_flushThen _ _ rfl, flushThen_nextStart _ _, position_flushThen _ _⟩
      · exact ⟨rfl, rfl, rfl⟩
    refine .pushed position rec env _ _ (q.listener.push rec env pushedAt now).window hposition hnext
      haccept hold ?_ hsub hsorted (fun e he hgone => ?_) (hindex ▸ hlistener.2.1) hlistener.2.2
    · show _ ++ (_ ++ (q.listener.receive S rec pushedAt now).held) = _
      rw [hlistener.1, List.append_assoc]
    · simp only [Shared.receive, haccept]
      exact List.mem_append_right _ (List.mem_map_of_mem (hdropped e he hgone))

/-- **Every step of the listener of a live consumer is such a move.** -/
theorem ListenerStep.move (hstep : ListenerStep S g q g' q') (h : Shape q) (hlive : q.consumer ≠ .stopped) :
    ListenerMove S g q g' q' := by
  cases hstep with
  | cancelled hstage => exact .flush hstage nofun rfl rfl
  | opened hstage =>
    refine .quiet (by simp [hstage]) (inFlight_setStage (by rw [hstage]; rfl) rfl) rfl fun p hp => .inr ?_
    exact (Option.some.inj hp).symm
  | received position rec pushedAt now hstage hnext => exact .receive h pushedAt now hstage hnext
  | drained position hstage => exact .flush hstage nofun rfl rfl
  | sent batch next hstage _ _ =>
    refine .quiet (by simp [hstage]) (inFlight_sent h hstage) rfl fun p hp => .inl ?_
    rw [hstage, next.position_stage batch]
    exact hp
  | sendFailed batch next _ hstopped => exact absurd hstopped hlive
  | tookAck ack acks last hstage => exact .quiet (by simp [hstage]) rfl rfl fun p hp => .inl hp
  | nothingPending last hstage =>
    exact .idle hstage nofun rfl rfl rfl (held_afterAcks last) (position_afterAcks last)
  | pending _ _ hstage | persisted _ _ _ hstage => exact .idle hstage nofun rfl rfl rfl rfl rfl
  | persistFailed _ last hstage | persistLost _ last hstage | cleared _ last hstage
  | clearFailed _ last hstage =>
    exact .idle hstage nofun rfl rfl rfl (held_afterAcks last) (position_afterAcks last)
  | died =>
    by_cases hheld : q.listener.stage.held = []
    · refine .gone [] ?_ rfl
      rw [List.append_nil, inFlight_setStage hheld rfl]
    -- only a send holds records, and then the window is empty
    · have hwindow : q.listener.window = [] := by
        refine h.window.eq_nil (fun p hp => hheld ?_) fun hp => hheld ?_ <;> rw [hp] <;> rfl
      refine .gone (q.listener.stage.held.map indexOf) ?_ rfl
      have hset : ({ q.listener with stage := .stopped } : Listener).held = [] := by
        rw [Listener.held]
        exact congrArg (List.map indexOf) hwindow
      show _ = _ ++ (_ ++ ({ q.listener with stage := .stopped } : Listener).held) ++ _
      rw [hset, List.append_nil, Pipe.inFlight, Pipe.rear, Listener.held, hwindow, List.append_nil,
        List.append_assoc]
      rfl

/-- **A step of a consumer that goes on**: it leaves what is in flight as it is, or acknowledges the oldest
record. -/
theorem ConsumerStep.move (hstep : ConsumerStep S g q g' q') (h : Shape q) (hlive : q'.consumer ≠ .stopped) :
    q'.listener = q.listener ∧ (q'.acks = q.acks ∧ q'.inFlight = q.inFlight ∨
      ∃ source batch, q.consumer = .committing source batch ∧
        q.inFlight = positionOf batch :: q'.inFlight ∧
        q'.acks = q.acks ++ [⟨batch.checkpoint.source, batch.checkpoint.position⟩]) := by
  have hsame : ∀ {c d : Consumer}, q.consumer = c → d.held = c.held →
      ({ q with consumer := d } : Pipe).inFlight = q.inFlight := by
    intro c d hc hheld
    subst hc
    simp only [Pipe.inFlight, Pipe.rear, hheld]
  cases hstep with
  | handedOut source batch ready hc _ hready =>
    refine ⟨rfl, .inl ⟨rfl, hsame hc ?_⟩⟩
    exact (held_enter hlive).2.trans hready.symm
  | received source events batch ready rest hc _ hready hevents hbatches =>
    have hne : events.events ≠ [] := h.events events (hevents ▸ List.mem_cons_self)
    have hpositions := positions_batchesOf source.filesystem hne
    rw [hbatches] at hpositions
    have hheld : q.consumer.held = [] := by
      rw [hc]
      exact hready
    refine ⟨rfl, .inl ⟨rfl, ?_⟩⟩
    show (Consumer.enter ..).held.map positionOf ++ ((rest.flatMap EventBatch.events).map indexOf ++ _) = _
    rw [(held_enter hlive).2, hpositions, Pipe.inFlight, Pipe.rear, hheld, hevents, List.flatMap_cons,
      List.map_append, List.append_assoc]
    rfl
  | pendingCheckpoint | closed => exact absurd rfl hlive
  | change source batch change todo errors hc =>
    refine ⟨rfl, .inl ⟨rfl, hsame hc ?_⟩⟩
    have hbegin : ∀ {d : Consumer}, d = Consumer.begin S.rt source batch todo errors change →
        d ≠ .stopped → d.held = batch :: source.ready := by
      intro d hd hne
      unfold Consumer.begin at hd
      split at hd
      · subst hd
        rfl
      · split at hd
        · exact absurd hd hne
        · subst hd
          rfl
    exact hbegin rfl hlive
  | applyStep _ _ _ _ _ _ _ _ hc | answered _ _ _ _ _ _ hc | finishStep _ _ _ _ _ _ _ hc =>
    exact ⟨rfl, .inl ⟨rfl, hsame hc rfl⟩⟩
  | finished source batch todo errors outcome hc =>
    refine ⟨rfl, .inl ⟨rfl, hsame hc ?_⟩⟩
    cases outcome with
    | fine | counted => rfl
    | broken | panicked => exact absurd rfl hlive
  | allDone source batch errors hc =>
    refine ⟨rfl, .inl ⟨rfl, hsame hc ?_⟩⟩
    unfold Consumer.done at hlive ⊢
    split_ifs at hlive ⊢
    · rfl
    · exact absurd rfl hlive
  | committed source batch hc _ _ _ =>
    refine ⟨rfl, .inr ⟨source, batch, hc, ?_, rfl⟩⟩
    rw [Pipe.inFlight, hc]
    rfl
  | commitFailed | died => exact absurd rfl hlive

theorem inFlight_start (cursor : Option UInt64) : (Pipe.start S cursor).inFlight = [] := by
  have hwindow : (Pipe.start S cursor).listener.window = [] :=
    Deduplicator.drain_eq Deduplicator.pends_new .nil
  rw [Pipe.inFlight, Pipe.rear, Listener.held, hwindow]
  rfl

theorem ConsumerStep.live (hstep : ConsumerStep S g q g' q') (hlive : q'.consumer ≠ .stopped) :
    q.consumer ≠ .stopped := by
  intro hc
  cases hstep with
  | died => exact hlive rfl
  | _ => simp_all

theorem ConsumerStep.stopped (hstep : ConsumerStep S g q g' q') (hc : q'.consumer = .stopped) :
    q'.listener = q.listener ∧ q'.acks = q.acks := by
  cases hstep with
  | committed => cases hc
  | _ => exact ⟨rfl, rfl⟩

end Moves

end Robinhood.Pipeline
