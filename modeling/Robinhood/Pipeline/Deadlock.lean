/-
# Pipeline.Deadlock — how much backlog the two channels bear

The listener blocks on a full channel of batches and takes no acknowledgement meanwhile; the consumer blocks
on a full channel of acknowledgements and takes no batch meanwhile.  In that state `N` records are
acknowledged in the channel, one is at `commit`, `N` batches wait and one is being sent: the two hold each
other up for good as soon as the changelog has `2 N + 2` records that are accepted.  With fewer they never
do.
-/
import Mathlib
import Robinhood.Pipeline.Loss
import Robinhood.Pipeline.Runs

namespace Robinhood.Pipeline

open Relation Lib Store Changelog ChangeSource Ingest Daemon

/-! ## §1 — The deadlock -/

/-- **The listener is blocked on a full channel of batches, the consumer on a full one of
acknowledgements.** -/
structure Deadlocked (S : Setting) (q : Pipe) : Prop where
  sending : ∃ batch next, q.listener.stage = .sending batch next
  events : S.cfg.channelBuffer ≤ q.events.length
  committing : ∃ source batch, q.consumer = .committing source batch
  acks : S.cfg.channelBuffer ≤ q.acks.length

def Setting.accepted (S : Setting) : List ChangelogEventEnvelope := S.log.filterMap S.cfg.accept

/-! ## §2 — What is between the changelog and the listener's acknowledgements -/

/-- The indices in flight, and before them those that are acknowledged in the channel. -/
def Pipe.backlog (q : Pipe) : List ℕ := q.acks.map (·.committedIndex.toNat) ++ q.inFlight

/-- **Every record is there once**: the indices increase, are those of accepted records and lie before the
next start. -/
structure Spread (S : Setting) (q : Pipe) : Prop where
  sorted : q.backlog.Pairwise (· < ·)
  due : ∀ n ∈ q.backlog, Due S n
  before : ∀ n ∈ q.backlog, (n : ℤ) < q.listener.nextStart.toInt
  position : ∀ p, q.listener.stage.position = some p → q.listener.nextStart.toInt ≤ p

section Spread

variable {S : Setting} {g g' : Shared} {q q' : Pipe} {s s' : System}

theorem Spread.of_sublist (h : Spread S q) (hsub : q'.backlog.Sublist q.backlog)
    (hstart : q'.listener.nextStart = q.listener.nextStart)
    (hposition : ∀ p, q'.listener.stage.position = some p → q.listener.nextStart.toInt ≤ p) :
    Spread S q' where
  sorted := h.sorted.sublist hsub
  due n hn := h.due n (hsub.subset hn)
  before n hn := hstart ▸ h.before n (hsub.subset hn)
  position p hp := hstart ▸ hposition p hp

theorem ListenerStep.acks_sublist (hstep : ListenerStep S g q g' q') : q'.acks.Sublist q.acks := by
  cases hstep with
  | tookAck ack acks last _ hacks =>
    rw [hacks]
    exact List.sublist_cons_self ack acks
  | _ => exact List.Sublist.refl _

/-- **A step of the listener**: a record is pushed beyond all others. -/
theorem ListenerStep.spread (hindex : ∀ rec ∈ S.log, rec.index.toNat < 2 ^ 63 - 1)
    (hstep : ListenerStep S g q g' q') (hshape : Shape q) (hlive : q.consumer ≠ .stopped)
    (hrun : q'.listener.stage ≠ .stopped) (h : Spread S q) : Spread S q' := by
  have hacks := hstep.acks_sublist.map (fun ack : EventAck => ack.committedIndex.toNat)
  cases hstep.move hshape hlive with
  | quiet _ hflight hstart hposition =>
    refine h.of_sublist (hacks.append (hflight ▸ .refl _)) hstart fun p hp => ?_
    obtain hp | rfl := hposition p hp
    · exact h.position p hp
    · exact Int.self_le_toNat _
  | skipped position rec hold hnext _ hflight hstart hnew =>
    refine h.of_sublist (hacks.append (hflight ▸ .refl _)) hstart fun p hp => ?_
    obtain rfl := Option.some.inj (hnew.symm.trans hp)
    have hle := h.position position hold
    have hpos := hnext.le
    push_cast
    omega
  | pushed position rec env front window window' hold hnext haccept hflight hflight' hsub hsorted _ hstart
      hnew =>
    have hsub' : q'.backlog.Sublist (q.backlog ++ [rec.index.toNat]) := by
      rw [Pipe.backlog, Pipe.backlog, hflight, hflight', List.append_assoc, List.append_assoc,
        ← S.cfg.accept_index haccept]
      refine hacks.append ((List.Sublist.refl front).append ?_)
      have hmap := hsub.map indexOf
      rwa [List.map_append] at hmap
    -- the start after the record does not wrap
    have hnext' : q'.listener.nextStart.toInt = rec.index.toNat + 1 := by
      have hlt := hindex rec hnext.mem
      rw [hstart, toInt_toInt64_succ, Int.bmod_eq_of_le (by omega) (by omega)]
    have hbound : ∀ n ∈ q.backlog, n < rec.index.toNat := by
      intro n hn
      have hstart' := h.before n hn
      have hle := h.position position hold
      have hpos := hnext.le
      omega
    have hall : (q.backlog ++ [rec.index.toNat]).Pairwise (· < ·) := by
      refine List.pairwise_append.2 ⟨h.sorted, List.pairwise_singleton _ _, fun n hn m hm => ?_⟩
      rw [List.mem_singleton.1 hm]
      exact hbound n hn
    have hmem : ∀ n ∈ q'.backlog, n ∈ q.backlog ∨ n = rec.index.toNat := fun n hn =>
      (List.mem_append.1 (hsub'.subset hn)).imp_right List.mem_singleton.1
    refine ⟨hall.sublist hsub', fun n hn => ?_, fun n hn => ?_, fun p hp => ?_⟩
    · obtain hn | rfl := hmem n hn
      · exact h.due n hn
      · exact ⟨rec, hnext.mem, rfl, by simp [haccept]⟩
    · obtain hn | rfl := hmem n hn
      · have := hbound n hn
        omega
      · omega
    · obtain rfl := Option.some.inj (hnew.symm.trans hp)
      rw [hnext']
      push_cast
      omega
  | gone _ _ hstopped => exact absurd hstopped hrun

theorem ConsumerStep.backlog_eq (hstep : ConsumerStep S g q g' q') (hshape : Shape q)
    (hlive : q'.consumer ≠ .stopped) : q'.listener = q.listener ∧ q'.backlog = q.backlog := by
  obtain ⟨hlistener, ⟨hacks, hflight⟩ | ⟨source, batch, -, hflight, hacks⟩⟩ := hstep.move hshape hlive
  · exact ⟨hlistener, by rw [Pipe.backlog, Pipe.backlog, hacks, hflight]⟩
  · refine ⟨hlistener, ?_⟩
    rw [Pipe.backlog, Pipe.backlog, hacks, hflight, List.map_append, List.append_assoc]
    rfl

theorem ListenerStep.live (hstep : ListenerStep S g q g' q') (hrun : q'.listener.stage ≠ .stopped) :
    q.listener.stage ≠ .stopped := by
  intro hstage
  cases hstep with
  | died => exact hrun rfl
  | _ => simp_all

def AllSpread (S : Setting) (s : System) : Prop :=
  ∀ q ∈ s.pipes, q.consumer ≠ .stopped → q.listener.stage ≠ .stopped → Spread S q

theorem AllSpread.setPipe (h : AllSpread S s) {i : ℕ}
    (hpipe : q.consumer ≠ .stopped → q.listener.stage ≠ .stopped → Spread S q) :
    AllSpread S ⟨g, s.pipes.set i q⟩ := by
  intro q' hq'
  obtain hq' | rfl := List.mem_or_eq_of_mem_set hq'
  · exact h q' hq'
  · exact hpipe

theorem spread_start (cursor : Option UInt64) : Spread S (.start S cursor) := by
  have hempty : (Pipe.start S cursor).backlog = [] := by
    rw [Pipe.backlog, inFlight_start]
    rfl
  refine ⟨hempty ▸ .nil, fun n hn => ?_, fun n hn => ?_, nofun⟩
  · exact absurd (hempty ▸ hn) List.not_mem_nil
  · exact absurd (hempty ▸ hn) List.not_mem_nil

theorem Step.allSpread (hindex : ∀ rec ∈ S.log, rec.index.toNat < 2 ^ 63 - 1) (hstep : Step S s s')
    (hok : SystemOk S s) (h : AllSpread S s) : AllSpread S s' := by
  cases hstep with
  | spawned =>
    intro q hq _ _
    obtain hq | hq := List.mem_append.1 hq
    · exact h q hq ‹_› ‹_›
    · rw [List.mem_singleton.1 hq]
      exact spread_start _
  | listener i q g q' hq hstep =>
    have hmem := List.mem_of_getElem? hq
    refine h.setPipe fun hlive hrun => ?_
    rw [hstep.consumer_eq] at hlive
    exact hstep.spread hindex (hok.pipes q hmem).shape hlive hrun (h q hmem hlive (hstep.live hrun))
  | consumer i q g q' hq hstep =>
    have hmem := List.mem_of_getElem? hq
    refine h.setPipe fun hlive hrun => ?_
    obtain ⟨hlistener, hbacklog⟩ := hstep.backlog_eq (hok.pipes q hmem).shape hlive
    have hspread := h q hmem (hstep.live hlive) (hlistener ▸ hrun)
    refine hspread.of_sublist (hbacklog ▸ .refl _) (hlistener ▸ rfl) ?_
    rw [hlistener]
    exact hspread.position
  | crashed => exact fun q hq => absurd hq List.not_mem_nil
  | lateCommit => exact h
  | others => exact h

theorem Reaches.allSpread (hindex : ∀ rec ∈ S.log, rec.index.toNat < 2 ^ 63 - 1) (h : Reaches S s) :
    AllSpread S s := by
  obtain ⟨slice, hslice, hrun⟩ := h
  induction hrun with
  | refl => exact fun q hq => absurd hq List.not_mem_nil
  | tail hrun hstep ih => exact hstep.allSpread hindex (Reaches.systemOk ⟨slice, hslice, hrun⟩) ih

end Spread

/-! ## §3 — Too little backlog -/

section Few

variable {S : Setting} {q : Pipe}

theorem Spread.length_le (h : Spread S q) : q.backlog.length ≤ S.accepted.length := by
  have hnodup : q.backlog.Nodup := h.sorted.imp fun hlt => hlt.ne
  have hsub : q.backlog ⊆ S.accepted.map indexOf := by
    intro n hn
    obtain ⟨rec, hrec, rfl, haccept⟩ := h.due n hn
    obtain ⟨env, henv⟩ := Option.ne_none_iff_exists'.1 haccept
    refine List.mem_map.2 ⟨env, List.mem_filterMap.2 ⟨rec, hrec, henv⟩, ?_⟩
    rw [indexOf, S.cfg.accept_index henv]
  have hle := (hnodup.subperm hsub).length_le
  rwa [List.length_map] at hle

theorem length_le_flatMap {batches : List EventBatch} (h : ∀ batch ∈ batches, batch.events ≠ []) :
    batches.length ≤ (batches.flatMap EventBatch.events).length := by
  induction batches with
  | nil => exact Nat.le_refl _
  | cons batch batches ih =>
    have hpos := List.length_pos_iff.2 (h batch List.mem_cons_self)
    have hrest := ih fun b hb => h b (List.mem_cons_of_mem _ hb)
    rw [List.flatMap_cons, List.length_append, List.length_cons]
    omega

/-- **A deadlock takes `2 N + 2` records.** -/
theorem Deadlocked.le_length (h : Deadlocked S q) (hshape : Shape q) :
    2 * S.cfg.channelBuffer + 2 ≤ q.backlog.length := by
  obtain ⟨batch, next, hstage⟩ := h.sending
  obtain ⟨source, b, hc⟩ := h.committing
  have hsent := List.length_pos_iff.2 (hshape.sending batch next hstage)
  have hqueued := length_le_flatMap hshape.events
  have hevents := h.events
  have hacks := h.acks
  have hlistener : q.listener.held.length = batch.events.length + q.listener.window.length := by
    rw [Listener.held, hstage, List.length_map, List.length_append]
    rfl
  have hconsumer : q.consumer.held.length = source.ready.length + 1 := by
    rw [hc]
    rfl
  simp only [Pipe.backlog, Pipe.inFlight, Pipe.rear, List.length_append, List.length_map, hlistener,
    hconsumer]
  omega

end Few

/-! ## §4 — Enough backlog -/

structure Rest (S : Setting) (position : ℕ) (rest : List RawRec) : Prop where
  all : ∀ rec ∈ S.log, position ≤ rec.index.toNat → rec ∈ rest
  mem : ∀ rec ∈ rest, rec ∈ S.log ∧ position ≤ rec.index.toNat
  sorted : rest.Pairwise fun a b => a.index < b.index

/-- A drain with so many accepted records before it, nothing in its window and single events in the channel;
the catalog is empty. -/
structure Supplied (S : Setting) (g : Shared) (q : Pipe) (n : ℕ) : Prop where
  catalog : g.slice.catalog.entries = ∅
  batcher : q.listener.batcher = .new S.cfg.mdt S.cfg.batcher
  alone : ∀ batch ∈ q.events, ∃ env, batch = alone S.cfg.mdt env
  supply : ∃ position rest, q.listener.stage = .draining position ∧ Rest S position rest ∧
    n ≤ (rest.filterMap S.cfg.accept).length

def Idle (S : Setting) (q : Pipe) : Prop :=
  ∃ source : LustreChangeSource, q.consumer = .receiving source ∧ source.filesystem = S.rt.filesystem ∧
    source.pending = none ∧ source.ready = []

section Many

variable {S : Setting} {g : Shared} {q : Pipe} {n : ℕ}

theorem Rest.next {position : ℕ} {rec : RawRec} {rest : List RawRec} (h : Rest S position (rec :: rest)) :
    Next S g position rec ∧ Rest S (rec.index.toNat + 1) rest := by
  have hafter := (List.pairwise_cons.1 h.sorted).1
  refine ⟨⟨(h.mem rec List.mem_cons_self).1, (h.mem rec List.mem_cons_self).2, fun r hr hle hlt => ?_⟩,
    fun r hr hle => ?_, fun r hr => ⟨(h.mem r (List.mem_cons_of_mem _ hr)).1, ?_⟩,
    (List.pairwise_cons.1 h.sorted).2⟩
  -- there is no record between the position and the next one
  · obtain rfl | hr := List.mem_cons.1 (h.all r hr hle)
    · exact absurd hlt (UInt64.lt_irrefl _)
    · exact absurd (hafter r hr) (UInt64.lt_asymm hlt)
  · have hpos := (h.mem rec List.mem_cons_self).2
    refine (List.mem_cons.1 (h.all r hr (by omega))).resolve_left ?_
    rintro rfl
    omega
  · exact UInt64.lt_iff_toNat_lt.1 (hafter r hr)

/-- **The next accepted record is read** and about to be sent alone. -/
theorem run_feed {position : ℕ} {rest : List RawRec} (hstage : q.listener.stage = .draining position)
    (hbatcher : q.listener.batcher = .new S.cfg.mdt S.cfg.batcher) (hrest : Rest S position rest)
    (hn : n + 1 ≤ (rest.filterMap S.cfg.accept).length) :
    ∃ env rest', Rest S (env.index.toNat + 1) rest' ∧ n ≤ (rest'.filterMap S.cfg.accept).length ∧
      ReflTransGen (Step S) ⟨g, [q]⟩ ⟨g, [q.handOver S env]⟩ := by
  induction rest generalizing q position with
  | nil => simp at hn
  | cons rec rest ih =>
    obtain ⟨hnext, hafter⟩ := hrest.next (g := g)
    cases haccept : S.cfg.accept rec with
    | none =>
      rw [List.filterMap_cons_none haccept] at hn
      obtain ⟨env, rest', hrest', hn', hrun⟩ :=
        ih (q := q.setStage (.draining (rec.index.toNat + 1))) rfl hbatcher hafter hn
      exact ⟨env, rest', hrest', hn', (run_skip hstage hbatcher hnext haccept).trans hrun⟩
    | some env =>
      rw [List.filterMap_cons_some haccept, List.length_cons] at hn
      refine ⟨env, rest, ?_, by omega, run_read hstage hbatcher hnext haccept⟩
      rwa [S.cfg.accept_index haccept]

def Pipe.delivered (q : Pipe) (S : Setting) (env : ChangelogEventEnvelope) : Pipe :=
  { (q.handOver S env).setStage (.draining (env.index.toNat + 1)) with
    events := q.events ++ [Pipeline.alone S.cfg.mdt env] }

/-- **The next accepted record comes into the channel.** -/
theorem Supplied.deliver (h : Supplied S g q (n + 1)) (hlive : q.consumer ≠ .stopped)
    (hroom : q.events.length < S.cfg.channelBuffer) :
    ∃ env, Supplied S g (q.delivered S env) n ∧
      ReflTransGen (Step S) ⟨g, [q]⟩ ⟨g, [q.delivered S env]⟩ := by
  obtain ⟨position, rest, hstage, hrest, hn⟩ := h.supply
  obtain ⟨env, rest', hrest', hn', hrun⟩ := run_feed (g := g) hstage h.batcher hrest hn
  refine ⟨env, ⟨h.catalog, h.batcher, fun b hb => ?_, _, rest', rfl, hrest', hn'⟩,
    hrun.trans (ListenerStep.sent g (q.handOver S env) _ _ rfl hlive hroom).run⟩
  obtain hb | hb := List.mem_append.1 hb
  · exact h.alone b hb
  · exact ⟨env, List.mem_singleton.1 hb⟩

/-- **The consumer takes the only event** and applies it. -/
theorem Supplied.take (h : Supplied S g q (n + 1)) (hidle : Idle S q) (hevents : q.events = [])
    (hbuffer : 1 ≤ S.cfg.channelBuffer) :
    ∃ g' q', Supplied S g' q' n ∧ q'.events = [] ∧ q'.acks = q.acks ∧
      (∃ source batch, q'.consumer = .committing source batch ∧ source.pending = some batch.checkpoint ∧
        source.filesystem = S.rt.filesystem ∧ source.ready = []) ∧
      ReflTransGen (Step S) ⟨g, [q]⟩ ⟨g', [q']⟩ := by
  obtain ⟨source, hc, hfilesystem, hpending, hready⟩ := hidle
  obtain ⟨env, hsupplied, hrun⟩ := h.deliver (by simp [hc]) (by rwa [hevents])
  have hone : (q.delivered S env).events = [Pipeline.alone S.cfg.mdt env] := by
    show q.events ++ _ = _
    rw [hevents, List.nil_append]
  obtain ⟨c, hempty, happly⟩ :=
    run_apply (S := S) (q := q.delivered S env) h.catalog hc hfilesystem hpending hready hone
  refine ⟨{ g.setCatalog c with applied := env.index :: g.applied },
    (q.delivered S env).atCommit source env [], ⟨hempty, hsupplied.batcher, ?_, hsupplied.supply⟩, rfl, rfl,
    ⟨_, _, rfl, rfl, hfilesystem, rfl⟩, hrun.trans happly⟩
  exact fun b hb => absurd hb List.not_mem_nil

/-- **One record is read, applied and acknowledged.** -/
theorem Supplied.round (h : Supplied S g q (n + 1)) (hidle : Idle S q) (hevents : q.events = [])
    (hroom : q.acks.length < S.cfg.channelBuffer) :
    ∃ g' q', Supplied S g' q' n ∧ Idle S q' ∧ q'.events = [] ∧ q'.acks.length = q.acks.length + 1 ∧
      ReflTransGen (Step S) ⟨g, [q]⟩ ⟨g', [q']⟩ := by
  obtain ⟨g', q', hsupplied, hevents', hacks, ⟨source, batch, hc, hpending, hfilesystem, hready⟩, hrun⟩ :=
    h.take hidle hevents (by omega)
  obtain ⟨position, rest, hstage, -⟩ := hsupplied.supply
  have hstep := (ConsumerStep.committed (S := S) g' q' source batch hc hpending (by simp [hstage])
    (hacks ▸ hroom)).run
  refine ⟨g', { q' with consumer := .receiving source.committed, acks := _ }, ⟨hsupplied.catalog, hsupplied.batcher, hsupplied.alone, hsupplied.supply⟩,
    ⟨source.committed, rfl, hfilesystem, rfl, hready⟩, hevents', ?_, hrun.trans hstep⟩
  rw [List.length_append, hacks]
  rfl

theorem Supplied.rounds (k : ℕ) (h : Supplied S g q (n + k)) (hidle : Idle S q) (hevents : q.events = [])
    (hroom : q.acks.length + k ≤ S.cfg.channelBuffer) :
    ∃ g' q', Supplied S g' q' n ∧ Idle S q' ∧ q'.events = [] ∧ q'.acks.length = q.acks.length + k ∧
      ReflTransGen (Step S) ⟨g, [q]⟩ ⟨g', [q']⟩ := by
  induction k generalizing g q with
  | zero => exact ⟨g, q, h, hidle, hevents, rfl, .refl⟩
  | succ k ih =>
    obtain ⟨g₁, q₁, hsupplied, hidle₁, hevents₁, hacks₁, hrun₁⟩ := Supplied.round h hidle hevents (by omega)
    obtain ⟨g₂, q₂, hsupplied₂, hidle₂, hevents₂, hacks₂, hrun₂⟩ :=
      ih hsupplied hidle₁ hevents₁ (by omega)
    exact ⟨g₂, q₂, hsupplied₂, hidle₂, hevents₂, by omega, hrun₁.trans hrun₂⟩

/-- **The channel of batches fills up** while the consumer stands still. -/
theorem Supplied.fill (k : ℕ) (h : Supplied S g q (n + k)) (hlive : q.consumer ≠ .stopped)
    (hroom : q.events.length + k ≤ S.cfg.channelBuffer) :
    ∃ q', Supplied S g q' n ∧ q'.consumer = q.consumer ∧ q'.acks = q.acks ∧
      q'.events.length = q.events.length + k ∧ ReflTransGen (Step S) ⟨g, [q]⟩ ⟨g, [q']⟩ := by
  induction k generalizing q with
  | zero => exact ⟨q, h, rfl, rfl, rfl, .refl⟩
  | succ k ih =>
    obtain ⟨env, hsupplied, hrun⟩ := Supplied.deliver (n := n + k) h hlive (by omega)
    have hlength : (q.delivered S env).events.length = q.events.length + 1 := List.length_append
    obtain ⟨q', hsupplied', hc, hacks, hevents, hrun'⟩ := ih hsupplied hlive (by omega)
    exact ⟨q', hsupplied', hc, hacks, by omega, hrun.trans hrun'⟩

/-- **With so much backlog the two come to block each other**: `N` records are acknowledged and one more is
at `commit`, then the channel of batches fills up, and the next send blocks. -/
theorem exists_deadlock (hbuffer : 1 ≤ S.cfg.channelBuffer)
    (hmany : 2 * S.cfg.channelBuffer + 2 ≤ S.accepted.length) :
    ∃ s, Reaches S s ∧ ∃ q ∈ s.pipes, Deadlocked S q := by
  let g : Shared := (System.start blank).shared
  let q := (Pipe.start S none).setStage (.draining 0)
  have hsupplied : Supplied S g q (2 * S.cfg.channelBuffer + 2) :=
    ⟨rfl, rfl, fun _ hb => absurd hb List.not_mem_nil, 0, S.log, rfl,
      ⟨fun _ hrec _ => hrec, fun _ hrec => ⟨hrec, Nat.zero_le _⟩, S.increasing⟩, hmany⟩
  have hidle : Idle S q := ⟨_, rfl, rfl, rfl, rfl⟩
  have hsplit : 2 * S.cfg.channelBuffer + 2 = (1 + S.cfg.channelBuffer + 1) + S.cfg.channelBuffer := by omega
  rw [hsplit] at hsupplied
  obtain ⟨g₁, q₁, hsupplied₁, hidle₁, hevents₁, hacks₁, hrun₁⟩ :=
    Supplied.rounds S.cfg.channelBuffer hsupplied hidle rfl (by simp [q, Pipe.setStage, Pipe.start])
  obtain ⟨g₂, q₂, hsupplied₂, hevents₂, hacks₂, ⟨source, batch, hc, -⟩, hrun₂⟩ :=
    hsupplied₁.take hidle₁ hevents₁ hbuffer
  obtain ⟨q₃, hsupplied₃, hc₃, hacks₃, hevents₃, hrun₃⟩ :=
    Supplied.fill S.cfg.channelBuffer hsupplied₂ (by simp [hc]) (by simp [hevents₂])
  obtain ⟨position, rest, hstage, hrest, hn⟩ := hsupplied₃.supply
  obtain ⟨env, -, -, -, hrun₄⟩ := run_feed (g := g₂) (n := 0) hstage hsupplied₃.batcher hrest hn
  have hrun := (run_start (S := S) blank rfl).trans
    (hrun₁.trans (hrun₂.trans (hrun₃.trans hrun₄)))
  refine ⟨_, ⟨blank, rfl, hrun⟩, q₃.handOver S env, List.mem_singleton_self _, ⟨_, _, rfl⟩, ?_,
    ⟨source, batch, hc₃.trans hc⟩, ?_⟩
  · show _ ≤ q₃.events.length
    omega
  · show _ ≤ q₃.acks.length
    rw [hacks₃, hacks₂]
    omega

end Many

/-- **Listener and consumer never block each other exactly if the changelog has fewer than `2 N + 2` records
that are accepted**, for a capacity `N` of the channels, any flush size and indices of which the cast to
`i64` has a successor. -/
theorem deadlock_free_iff {S : Setting} (hbuffer : 1 ≤ S.cfg.channelBuffer)
    (hindex : ∀ rec ∈ S.log, rec.index.toNat < 2 ^ 63 - 1) :
    (∀ s, Reaches S s → ∀ q ∈ s.pipes, ¬ Deadlocked S q) ↔
      S.accepted.length < 2 * S.cfg.channelBuffer + 2 := by
  constructor
  · intro hfree
    by_contra hmany
    obtain ⟨s, hreaches, q, hq, hdeadlock⟩ := exists_deadlock hbuffer (Nat.le_of_not_lt hmany)
    exact hfree s hreaches q hq hdeadlock
  · intro hfew s hreaches q hq hdeadlock
    obtain ⟨batch, next, hstage⟩ := hdeadlock.sending
    obtain ⟨source, b, hc⟩ := hdeadlock.committing
    have hspread := hreaches.allSpread hindex q hq (by simp [hc]) (by simp [hstage])
    have hle := hdeadlock.le_length (hreaches.systemOk.pipes q hq).shape
    have hbound := hspread.length_le
    omega

open Sample in
/-- Three records that are flushed one by one never fill two channels for one message. -/
theorem three_records_flow : ¬ ∃ s, Reaches (setting [1, 2, 3] (by decide)) s ∧
    ∃ q ∈ s.pipes, Deadlocked (setting [1, 2, 3] (by decide)) q := by
  rintro ⟨s, hreaches, q, hq, hdeadlock⟩
  exact (deadlock_free_iff (S := setting [1, 2, 3] (by decide)) (by decide) (by decide)).2 (by decide) s
    hreaches q hq hdeadlock

open Sample in
/-- **Four records do**: one is acknowledged in the channel, one is at `commit`, one waits to be received and
one to be sent. -/
theorem four_records_deadlock : ∃ s, Reaches (setting [1, 2, 3, 4] (by decide)) s ∧
    ∃ q ∈ s.pipes, Deadlocked (setting [1, 2, 3, 4] (by decide)) q :=
  exists_deadlock (by decide) (by decide)

/-! ## §5 — A deadlock does not end -/

def System.Lives (s : System) (i : ℕ) : Prop :=
  ∃ q, s.pipes[i]? = some q ∧ q.listener.stage ≠ .stopped ∧ q.consumer ≠ .stopped

section Stuck
variable {S : Setting} {g g' : Shared} {q q' : Pipe} {s t : System} {i : ℕ}

theorem Deadlocked.stuck (h : Deadlocked S q) (hstep : ListenerStep S g q g' q' ∨ ConsumerStep S g q g' q') :
    q'.listener.stage = .stopped ∨ q'.consumer = .stopped := by
  obtain ⟨batch, next, hstage⟩ := h.sending
  obtain ⟨source, b, hc⟩ := h.committing
  have hevents := h.events
  have hacks := h.acks
  obtain hstep | hstep := hstep
  · left
    cases hstep with
    | died => rfl
    | sent => omega
    | sendFailed _ _ _ hstopped => simp [hc] at hstopped
    | _ => simp_all
  · right
    cases hstep with
    | died => rfl
    | committed => omega
    | commitFailed => rfl
    | _ => simp_all

theorem Deadlocked.step (h : Deadlocked S q) (hi : s.pipes[i]? = some q) (hstep : Step S s t)
    (hlives : t.Lives i) : t.pipes[i]? = some q := by
  have hlt := (List.getElem?_eq_some_iff.1 hi).1
  obtain ⟨p, hp, hlistener, hconsumer⟩ := hlives
  -- the pipe that moves is another one: of this one an end would have died
  have hset : ∀ j r g g' r', s.pipes[j]? = some r → ListenerStep S g r g' r' ∨ ConsumerStep S g r g' r' →
      (s.pipes.set j r')[i]? = some p → (s.pipes.set j r')[i]? = some q := by
    intro j r g g' r' hj hmoved hp
    by_cases hij : j = i
    · subst hij
      obtain rfl : r = q := Option.some.inj (hj.symm.trans hi)
      rw [List.getElem?_set_self hlt] at hp
      obtain rfl := Option.some.inj hp
      exact absurd (h.stuck hmoved) (not_or.2 ⟨hlistener, hconsumer⟩)
    · rw [List.getElem?_set_ne hij, hi]
  cases hstep with
  | spawned => rw [List.getElem?_append_left hlt, hi]
  | listener j r g r' hj hmoved => exact hset j r _ _ r' hj (.inl hmoved) hp
  | consumer j r g r' hj hmoved => exact hset j r _ _ r' hj (.inr hmoved) hp
  | crashed => simp at hp
  | lateCommit | others => exact hi

/-- **A deadlock does not end**: in every run, as long as neither end dies, the pipe stays as it is. -/
theorem deadlock_lasts (h : Deadlocked S q) (hi : s.pipes[i]? = some q)
    (hrun : ReflTransGen (fun s t => Step S s t ∧ t.Lives i) s t) : t.pipes[i]? = some q := by
  induction hrun with
  | refl => exact hi
  | tail _ hstep ih => exact h.step ih hstep.1 hstep.2

/-- A deadlocked pipe lives in every state that still has it. -/
theorem Deadlocked.lives (h : Deadlocked S q) (hi : s.pipes[i]? = some q) : s.Lives i := by
  obtain ⟨batch, next, hstage⟩ := h.sending
  obtain ⟨source, b, hc⟩ := h.committing
  exact ⟨q, hi, by simp [hstage], by simp [hc]⟩

end Stuck

open Sample in
/-- A second pipe is spawned beside the deadlocked one, its listener opens the changelog and dies: three
steps in which the first one stays as it is. -/
theorem four_records_stay : ∃ (s t : System) (q p : Pipe) (i : ℕ), Reaches (setting [1, 2, 3, 4] (by decide)) s ∧
    s.pipes[i]? = some q ∧ Deadlocked (setting [1, 2, 3, 4] (by decide)) q ∧
    t.pipes[s.pipes.length]? = some p ∧ p.listener.stage = .stopped ∧ t.pipes[i]? = some q := by
  obtain ⟨s, hreaches, q, hq, hdeadlock⟩ :=
    exists_deadlock (S := setting [1, 2, 3, 4] (by decide)) (by decide) (by decide)
  obtain ⟨i, hi⟩ := List.getElem?_of_mem hq
  have hlt := (List.getElem?_eq_some_iff.1 hi).1
  let S := setting [1, 2, 3, 4] (by decide)
  let p := Pipe.start S (s.shared.cursor S)
  let opened := p.setStage (.draining p.listener.nextStart.toInt.toNat)
  -- the states after each step: the second pipe is the last of the list
  let state (r : Pipe) : System := ⟨s.shared, s.pipes ++ [r]⟩
  have hset : ∀ r r', (s.pipes ++ [r]).set s.pipes.length r' = s.pipes ++ [r'] := fun r r' => by
    rw [List.set_append_right _ _ (Nat.le_refl _), Nat.sub_self, List.set_cons_zero]
  have hlives : ∀ r, (state r).Lives i := fun r =>
    hdeadlock.lives (by rw [List.getElem?_append_left hlt, hi])
  have hmove : ∀ r r', ListenerStep S s.shared r s.shared r' → Step S (state r) (state r') := by
    intro r r' hstep
    have hmoved := Step.listener (state r) s.pipes.length r s.shared r' List.getElem?_concat_length hstep
    rwa [hset] at hmoved
  have hspawned : Step S s (state p) := Step.spawned s
  have hopened := hmove p opened (.opened _ _ rfl)
  have hdied := hmove opened (opened.setStage .stopped) (.died _ _)
  refine ⟨s, state (opened.setStage .stopped), q, _, i, hreaches, hi, hdeadlock, List.getElem?_concat_length, rfl, ?_⟩
  exact deadlock_lasts hdeadlock hi
    (((ReflTransGen.single ⟨hspawned, hlives p⟩).tail ⟨hopened, hlives _⟩).tail ⟨hdied, hlives _⟩)

end Robinhood.Pipeline
