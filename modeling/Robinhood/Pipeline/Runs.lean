/-
# Pipeline.Runs — runs of one pipe

A record that is read into an empty window and found to be old enough travels alone: it is sent as a batch of
one event, applied and acknowledged.  The lemmas here say that each of these parts is a run of the system;
they are put together where a run is to be shown possible.
-/
import Mathlib
import Robinhood.Pipeline.InFlight

namespace Robinhood.Pipeline

open Relation Lib Store Changelog ChangeSource Ingest Daemon

/-! ## §1 — Applying an event where nothing is found -/

section Gone

variable {filesystem : FileSystemId} {c : Catalog}

theorem scopedEntry_of_empty (hc : c.entries = ∅) (key : EntryKey) : c.scopedEntry key = .ok none := by
  have hrow : c.row key.object = none := by
    rw [Catalog.row, hc]
    rfl
  rw [Catalog.scopedEntry, hrow]

theorem lustreEntry_of_empty (hc : c.entries = ∅) (fid : LuFid) : c.lustreEntry filesystem fid = .ok none := by
  rw [Catalog.lustreEntry, scopedEntry_of_empty hc]
  rfl

theorem run_getLustreEntry_of_empty (hc : c.entries = ∅) (fid : LuFid) :
    (getLustreEntry filesystem fid).run c = (.ok none, c) := by
  rw [getLustreEntry, Proc.run_ask, lustreEntry_of_empty hc]

/-- **An event of an object that is neither in the catalog nor on the mount** is applied with `Ok`. -/
theorem run_applyEvent_gone (filesystem : FileSystemId) (hc : c.entries = ∅) (event : ChangelogEvent)
    (time : Int) (clock : EventClock) : ∃ touched,
      ((applyEvent filesystem bareMount event time clock).run c).1 = .ok touched ∧
      ((applyEvent filesystem bareMount event time clock).run c).2.entries = ∅ := by
  have hremoved : ∀ fid, ((removeLustreEntry filesystem fid time >>= fun _ => pure true).run c).1 = .ok true ∧
      ((removeLustreEntry filesystem fid time >>= fun _ => pure true).run c).2.entries = ∅ := by
    intro fid
    rw [Proc.run_bind, run_removeLustreEntry, Catalog.withoutLustre, scopedEntry_of_empty hc]
    exact ⟨rfl, hc⟩
  cases event with
  | create | mkdir | mknod | softlink | xAttr | layout => exact ⟨false, rfl, hc⟩
  | hardlink =>
    refine ⟨false, ?_⟩
    simp only [applyEvent, Proc.run_bind, run_getLustreEntry_of_empty hc]
    exact ⟨rfl, hc⟩
  | unlink fid parent name lastLink =>
    cases lastLink with
    | true => exact ⟨true, hremoved fid⟩
    | false =>
      have hdrop : (c.dropEdge ⟨.lustre parent, name⟩).entries = ∅ := hc
      refine ⟨false, ?_⟩
      rw [applyEvent, if_neg Bool.false_ne_true]
      simp only [removeScopedNamespaceEdge, Proc.run_bind, Proc.run, run_getLustreEntry_of_empty hdrop]
      exact ⟨rfl, hdrop⟩
  | rmdir fid => exact ⟨true, hremoved fid⟩
  | rename =>
    refine ⟨false, ?_⟩
    simp only [applyEvent, Proc.run_bind, run_getLustreEntry_of_empty hc]
    exact ⟨rfl, hc⟩
  | close | truncate =>
    refine ⟨false, ?_⟩
    simp only [applyEvent, restatEntry, Proc.run_bind, run_getLustreEntry_of_empty hc]
    exact ⟨rfl, hc⟩
  | setAttr fid | mTime fid | cTime fid =>
    refine ⟨false, ?_⟩
    simp only [applyEvent, restatEntry, Proc.run_bind, run_getLustreEntry_of_empty hc]
    exact ⟨rfl, hc⟩
  | hsm =>
    refine ⟨false, ?_⟩
    simp only [applyEvent, applyHsmEvent, patchScopedSmStatus, getScopedEntry, Proc.run_bind, Proc.run_ask,
      scopedEntry_of_empty hc]
    exact ⟨rfl, hc⟩

end Gone

/-! ## §2 — One record in an empty window -/

section Alone

/-- **A record that comes into an empty window** is pending alone, and nothing is dropped. -/
theorem push_new (env : ChangelogEventEnvelope) :
    (Deduplicator.new.push env).2.pending = 1 ∧ (Deduplicator.new.push env).2.drain.1 = [env] := by
  have hcancel : Deduplicator.shouldCancel (Deduplicator.new.queue env.event.fid) env.event = false := by
    cases env.event with
    | unlink fid parent name lastLink => cases lastLink <;> rfl
    | _ => rfl
  have hmasked : Deduplicator.isMasked (Deduplicator.new.queue env.event.fid) env.event = false :=
    List.any_eq_false.2 fun _ _ => Bool.false_ne_true
  constructor
  · simp only [Deduplicator.push, hcancel, hmasked]
    rfl
  · obtain ⟨kept, hpends, hsub, -, hkept⟩ := Deduplicator.pends_new.push env
    have hmem : env ∈ kept := by simpa [hcancel, hmasked] using hkept
    obtain rfl : kept = [env] := hsub.eq_of_length_le (List.length_pos_of_mem hmem)
    exact Deduplicator.drain_eq hpends (List.pairwise_singleton _ _)

variable {S : Setting} {l : Listener} {rec : RawRec} {env : ChangelogEventEnvelope}

def alone (mdt : String) (env : ChangelogEventEnvelope) : EventBatch := ⟨mdt, [env], env.index, env.index⟩

/-- **A record that is found to be old enough is flushed at once.** -/
theorem receive_alone (hbatcher : l.batcher = .new S.cfg.mdt S.cfg.batcher)
    (haccept : S.cfg.accept rec = some env) :
    l.receive S rec 0 S.cfg.batcher.flushInterval =
      { l with
        nextStart := env.index.toInt64 + 1
        stage := .sending (alone S.cfg.mdt env) (.draining (rec.index.toNat + 1)) } := by
  obtain ⟨hpending, hdrain⟩ := push_new env
  have hfull : (l.batcher.push env 0 S.cfg.batcher.flushInterval).1 = true := by
    rw [hbatcher]
    simp [EventBatcher.push, EventBatcher.shouldFlush, EventBatcher.new, hpending]
  have hflush : (l.batcher.push env 0 S.cfg.batcher.flushInterval).2.flush =
      (some (alone S.cfg.mdt env), .new S.cfg.mdt S.cfg.batcher) := by
    rw [hbatcher]
    simp only [EventBatcher.push, EventBatcher.new, EventBatcher.flush, hdrain]
    rfl
  simp only [Listener.receive, haccept, hfull, if_true, Listener.flushThen, hflush, ← hbatcher]

theorem shared_receive_alone (g : Shared) (hbatcher : l.batcher = .new S.cfg.mdt S.cfg.batcher) :
    g.receive S l.batcher rec = g := by
  unfold Shared.receive
  split
  · rfl
  · next env _ =>
    have hnone : l.batcher.droppedBy env = [] := by
      have hempty : Deduplicator.new.drain.1 = [] :=
        Deduplicator.drain_eq Deduplicator.pends_new .nil
      rw [hbatcher]
      simp [EventBatcher.droppedBy, EventBatcher.new, hempty, (push_new env).2]
    rw [hnone, List.map_nil, List.append_nil]

end Alone

/-! ## §3 — The parts of a run -/

section Parts

variable {S : Setting} {g g' : Shared} {q q' : Pipe}

theorem ListenerStep.run (h : ListenerStep S g q g' q') : ReflTransGen (Step S) ⟨g, [q]⟩ ⟨g', [q']⟩ :=
  .single (.listener ⟨g, [q]⟩ 0 q g' q' rfl h)

theorem ConsumerStep.run (h : ConsumerStep S g q g' q') : ReflTransGen (Step S) ⟨g, [q]⟩ ⟨g', [q']⟩ :=
  .single (.consumer ⟨g, [q]⟩ 0 q g' q' rfl h)

theorem run_prog {α : Type} {F : DaemonProg α → Consumer}
    (hF : ∀ g p p' catalog, Prog.Step (p, g.slice.catalog) (p', catalog) →
      ConsumerStep S g { q with consumer := F p } (g.setCatalog catalog) { q with consumer := F p' })
    {a b : DaemonProg α × Catalog} (h : ReflTransGen Prog.Step a b) :
    ReflTransGen (Step S) ⟨g.setCatalog a.2, [{ q with consumer := F a.1 }]⟩
      ⟨g.setCatalog b.2, [{ q with consumer := F b.1 }]⟩ := by
  induction h with
  | refl => exact .refl
  | @tail b c _ hstep ih => exact ih.trans (hF (g.setCatalog b.2) b.1 c.1 c.2 hstep).run

/-- Tables in which nothing is stored. -/
def blank : Slice := ⟨⟨none, ∅, ∅, ∅, ∅, none⟩, ∅⟩

/-- **The first cycle begins**: without a cursor the drain reads from the first record on. -/
theorem run_start (slice : Slice) (hcursor : slice.cursor S.cfg.mdt = none) :
    ReflTransGen (Step S) (.start slice)
      ⟨(System.start slice).shared, [(Pipe.start S none).setStage (.draining 0)]⟩ := by
  have hspawned := ReflTransGen.single (Step.spawned (S := S) (.start slice))
  have hnone : Shared.cursor S (System.start slice).shared = none := hcursor
  rw [hnone] at hspawned
  exact hspawned.trans (ListenerStep.opened _ (.start S none) rfl).run

/-- **The next record is not accepted.** -/
theorem run_skip {position : ℕ} {rec : RawRec} (hstage : q.listener.stage = .draining position)
    (hbatcher : q.listener.batcher = .new S.cfg.mdt S.cfg.batcher) (hnext : Next S g position rec)
    (haccept : S.cfg.accept rec = none) :
    ReflTransGen (Step S) ⟨g, [q]⟩ ⟨g, [q.setStage (.draining (rec.index.toNat + 1))]⟩ := by
  have hrun := (ListenerStep.received g q position rec 0 0 hstage hnext).run
  rw [shared_receive_alone g hbatcher] at hrun
  simp only [Listener.receive, haccept] at hrun
  exact hrun

def Pipe.handOver (q : Pipe) (S : Setting) (env : ChangelogEventEnvelope) : Pipe :=
  { q with
    listener := { q.listener with
      nextStart := env.index.toInt64 + 1
      stage := .sending (alone S.cfg.mdt env) (.draining (env.index.toNat + 1)) } }

/-- **The next record is read and flushed.** -/
theorem run_read {position : ℕ} {rec : RawRec} {env : ChangelogEventEnvelope}
    (hstage : q.listener.stage = .draining position)
    (hbatcher : q.listener.batcher = .new S.cfg.mdt S.cfg.batcher) (hnext : Next S g position rec)
    (haccept : S.cfg.accept rec = some env) :
    ReflTransGen (Step S) ⟨g, [q]⟩ ⟨g, [q.handOver S env]⟩ := by
  have hrun := (ListenerStep.received g q position rec 0 S.cfg.batcher.flushInterval hstage hnext).run
  rw [shared_receive_alone g hbatcher, receive_alone hbatcher haccept,
    ← S.cfg.accept_index haccept] at hrun
  exact hrun

/-- **`apply_event` comes to an `Ok`** where nothing is found. -/
theorem steps_applyProgram (rt : Runtime) {c : Catalog} (hc : c.entries = ∅) (event : ChangelogEvent)
    (time : Int) : ∃ touched c', c'.entries = ∅ ∧
      ReflTransGen Prog.Step (applyProgram rt event time, c) (.ret (.ok touched), c') := by
  obtain ⟨touched, hok, hempty⟩ := run_applyEvent_gone rt.filesystem hc event time ⟨0, 0⟩
  obtain ⟨hanswer, hcatalog⟩ := Prog.play_perform quietAnswers StoreCall.update
    (applyEvent rt.filesystem bareMount event time ⟨0, 0⟩) c
    ([.answered .eventClock ⟨0, 0⟩, .answered .mount bareMount] : List DaemonEvent)
  refine ⟨touched, _, hempty, ?_⟩
  have hsteps := Prog.steps_play quietAnswers (applyProgram rt event time) c []
  have hret : (.ret (.ok touched) : DaemonProg (Except (Option StoreError) Bool)) =
      .ret ((applyProgram rt event time).play quietAnswers c []).1 := by
    rw [hok] at hanswer
    exact congrArg Prog.ret hanswer.symm
  rw [← hcatalog, hret]
  exact hsteps

theorem steps_afterApply (rt : Runtime) (event : ChangelogEvent) (touched : Bool) (c : Catalog) :
    ReflTransGen Prog.Step (afterApply rt event (.ok touched), c) (.ret .fine, c) := by
  cases touched with
  | false => exact .refl
  | true => exact Prog.steps_play quietAnswers (classifyTouched rt event.fid) c []

/-- The consumer at `commit` with a batch of one event. -/
def Pipe.atCommit (q : Pipe) (source : LustreChangeSource) (env : ChangelogEventEnvelope)
    (events : List EventBatch) : Pipe :=
  let batch := LustreChangeSource.single source.filesystem env
  { q with consumer := .committing (source.handOut batch []) batch, events := events }

/-- **A batch of one event is taken from the channel and applied.** -/
theorem run_apply {source : LustreChangeSource} {env : ChangelogEventEnvelope} {events : List EventBatch}
    (hcatalog : g.slice.catalog.entries = ∅) (hc : q.consumer = .receiving source)
    (hfilesystem : source.filesystem = S.rt.filesystem) (hpending : source.pending = none)
    (hready : source.ready = []) (hevents : q.events = alone S.cfg.mdt env :: events) :
    ∃ c, c.entries = ∅ ∧ ReflTransGen (Step S) ⟨g, [q]⟩
      ⟨{ g.setCatalog c with applied := env.index :: g.applied }, [q.atCommit source env events]⟩ := by
  set batch := LustreChangeSource.single source.filesystem env with hbatch
  set taken := source.handOut batch [] with htaken
  -- the pipe while the consumer works on the batch
  let at_ (consumer : Consumer) : Pipe := { q with consumer, events }
  have htake : ReflTransGen (Step S) ⟨g, [q]⟩ ⟨g, [at_ (.looping taken batch batch.changes 0)]⟩ := by
    have hmatches : batch.filesystem = S.rt.filesystem := hfilesystem
    have hstep := (ConsumerStep.received (S := S) g q source _ batch [] events hc hpending hready hevents
      rfl).run
    rwa [Consumer.enter, if_neg (not_not.2 hmatches)] at hstep
  obtain ⟨event, -, hbegin⟩ := begin_normalizeLustre S.rt taken batch [] 0 env.event env.time
  have hchange : ReflTransGen (Step S) ⟨g, [at_ (.looping taken batch batch.changes 0)]⟩
      ⟨g, [at_ (.applying taken batch [] 0 event
        (applyProgram S.rt event (normalizeLustre env.event env.time).time))]⟩ := by
    have hstep := (ConsumerStep.change (S := S) g (at_ (.looping taken batch batch.changes 0)) taken batch
      (normalizeLustre env.event env.time) [] 0 rfl).run
    rwa [hbegin] at hstep
  obtain ⟨touched, c, hempty, hsteps⟩ :=
    steps_applyProgram S.rt hcatalog event (normalizeLustre env.event env.time).time
  refine ⟨c, hempty, ?_⟩
  have happly : ReflTransGen (Step S) ⟨g, [at_ (.applying taken batch [] 0 event
        (applyProgram S.rt event (normalizeLustre env.event env.time).time))]⟩
      ⟨g.setCatalog c, [at_ (.applying taken batch [] 0 event (.ret (.ok touched)))]⟩ :=
    run_prog (g := g) (q := at_ .stopped) (F := .applying taken batch [] 0 event)
      (fun g p p' catalog h => .applyStep g _ taken batch [] 0 event p p' catalog rfl h) hsteps
  have hanswer := (ConsumerStep.answered (S := S) (g.setCatalog c)
    (at_ (.applying taken batch [] 0 event (.ret (.ok touched)))) taken batch [] 0 event (.ok touched)
    rfl).run
  have hfinish : ReflTransGen (Step S)
      ⟨{ g.setCatalog c with applied := env.index :: g.applied },
        [at_ (.finishing taken batch [] 0 (afterApply S.rt event (.ok touched)))]⟩
      ⟨{ g.setCatalog c with applied := env.index :: g.applied },
        [at_ (.finishing taken batch [] 0 (.ret .fine))]⟩ :=
    run_prog (g := { g with applied := env.index :: g.applied }) (q := at_ .stopped)
      (F := .finishing taken batch [] 0)
      (fun g p p' catalog h => .finishStep g _ taken batch [] 0 p p' catalog rfl h)
      (steps_afterApply S.rt event touched c)
  have hfinished := (ConsumerStep.finished (S := S)
    { g.setCatalog c with applied := env.index :: g.applied }
    (at_ (.finishing taken batch [] 0 (.ret .fine))) taken batch [] 0 .fine rfl).run
  have hdone := (ConsumerStep.allDone (S := S) { g.setCatalog c with applied := env.index :: g.applied }
    (at_ (.looping taken batch [] 0)) taken batch 0 rfl).run
  exact htake.trans (hchange.trans (happly.trans (hanswer.trans (hfinish.trans (hfinished.trans hdone)))))

/-- **The end of a cycle with one acknowledgement**: its index is stored, then cleared. -/
theorem run_checkpoint {position : ℕ} {ack : EventAck} (now : Int)
    (hstage : q.listener.stage = .draining position)
    (hbatcher : q.listener.batcher = .new S.cfg.mdt S.cfg.batcher) (hacks : q.acks = [ack])
    (hpending : q.listener.acks.pending = none)
    (hnew : q.listener.acks.lastCleared < ack.committedIndex.toInt64) :
    ∃ q', ReflTransGen (Step S) ⟨g, [q]⟩
      ⟨{ g with
          slice := g.slice.commit S.cfg.mdt ack.committedIndex.toInt64.toUInt64 now
          cleared := ack.committedIndex.toInt64 :: g.cleared }, [q']⟩ := by
  have hdrained : ReflTransGen (Step S) ⟨g, [q]⟩ ⟨g, [q.setStage (.takingAcks false)]⟩ := by
    have hempty : Deduplicator.new.drain.1 = [] := Deduplicator.drain_eq Deduplicator.pends_new .nil
    have hflush : q.listener.batcher.flush = (none, q.listener.batcher) := by
      rw [hbatcher]
      simp only [EventBatcher.flush, EventBatcher.new, hempty, if_true]
      rfl
    have hstep := (ListenerStep.drained (S := S) g q position hstage).run
    simp only [Listener.flushThen, hflush] at hstep
    exact hstep
  have htake : q.listener.acks.take ack = ⟨q.listener.acks.lastCleared, some ack.committedIndex.toInt64⟩ := by
    simp [AckState.take, hnew, hpending]
  have htook := (ListenerStep.tookAck (S := S) g (q.setStage (.takingAcks false)) ack [] false rfl hacks).run
  have hidx : (q.listener.acks.take ack).pending = some ack.committedIndex.toInt64 := by rw [htake]
  refine ⟨_, hdrained.trans (htook.trans ((ListenerStep.pending g _ _ false rfl rfl hidx).run.trans
    ((ListenerStep.persisted g _ _ false now rfl).run.trans (ListenerStep.cleared _ _ _ false rfl).run)))⟩

end Parts

namespace Sample

open Store.Sample (lustre)

def layout (index : UInt64) : RawRec :=
  ⟨.layout, index, 0, ⟨1, 5, 0⟩, ⟨1, 1, 0⟩, [97], none, none, none, none, none, none, 0⟩

def setting (indices : List UInt64) (increasing : indices.Pairwise (· < ·)) : Setting where
  cfg :=
    { mdt := "lustre-MDT0000"
      readerId := "cl1"
      batcher := ⟨5000000000, 1, 50000⟩
      channelBuffer := 1
      ignoredTypes := [.mark, .opened, .noOpen, .aTime] }
  rt := ⟨lustre, [.rootDir, .normal [108]], fun _ => "store", Policy.Sample.ascii⟩
  log := indices.map layout
  increasing := List.pairwise_map.2 increasing

end Sample

end Robinhood.Pipeline
