/-
# Pipeline.Loss — no record of the MDT is lost

What is in flight is worked off in the order it was read, and nothing is left out before it
(`Lib.InOrder`).  So an acknowledgement is true: every record up to its index was applied, dropped by the
deduplicator or never accepted.  The cursor and the indices that are cleared come from acknowledgements, or
from the cursor itself after a restart, and an index is cleared after it was stored.

The casts between the index of a record and the `i64` of the listener may wrap.  An index of which the cast
is negative is never persisted, and a start that wrapped reads everything again.
-/
import Mathlib
import Robinhood.Pipeline.Runs
import Robinhood.Lib.InOrder

namespace Robinhood.Pipeline

open Relation Lib Store Changelog ChangeSource Ingest Daemon

/-! ## §1 — Settled records -/

section Settled

variable (S : Setting) (g : Shared)

/-- **The record needs nothing more**: it was filtered out or rejected, applied with `Ok`, or dropped. -/
def Settled (rec : RawRec) : Prop :=
  S.cfg.accept rec = none ∨ rec.index ∈ g.applied ∨ rec.index ∈ g.dropped

def SettledTo (idx : ℤ) : Prop := ∀ rec ∈ S.log, (rec.index.toNat : ℤ) ≤ idx → Settled S g rec

def Due (n : ℕ) : Prop := ∃ rec ∈ S.log, rec.index.toNat = n ∧ S.cfg.accept rec ≠ none

def Done (n : ℕ) : Prop := ∃ idx : UInt64, idx.toNat = n ∧ (idx ∈ g.applied ∨ idx ∈ g.dropped)

def Durable (idx : Int64) : Prop := ∃ c, g.cursor S = some c ∧ idx.toInt ≤ c.toNat

variable {S g}

theorem settledTo_of_done {idx : ℤ} (h : ∀ n, Due S n → (n : ℤ) ≤ idx → Done g n) : SettledTo S g idx := by
  intro rec hrec hle
  by_cases haccept : S.cfg.accept rec = none
  · exact .inl haccept
  · obtain ⟨i, hi, hdone⟩ := h rec.index.toNat ⟨rec, hrec, rfl, haccept⟩ hle
    rw [UInt64.toNat_inj] at hi
    exact .inr (hi ▸ hdone)

theorem SettledTo.done {idx : ℤ} (h : SettledTo S g idx) {n : ℕ} (hdue : Due S n) (hle : (n : ℤ) ≤ idx) :
    Done g n := by
  obtain ⟨rec, hrec, rfl, haccept⟩ := hdue
  exact ⟨rec.index, rfl, (h rec hrec hle).resolve_left haccept⟩

theorem SettledTo.le {i j : ℤ} (h : SettledTo S g j) (hle : i ≤ j) : SettledTo S g i :=
  fun rec hrec hi => h rec hrec (hi.trans hle)

end Settled

/-- **What only grows**: what was applied, what was dropped, and the cursor. -/
structure Grows (S : Setting) (g g' : Shared) : Prop where
  applied : g.applied ⊆ g'.applied
  dropped : g.dropped ⊆ g'.dropped
  cursor : ∀ c, g.cursor S = some c → ∃ c', g'.cursor S = some c' ∧ c ≤ c'

section Grows

variable {S : Setting} {g g' : Shared}

theorem Grows.of_cursor (happlied : g.applied ⊆ g'.applied) (hdropped : g.dropped ⊆ g'.dropped)
    (hcursor : g'.cursor S = g.cursor S) : Grows S g g' :=
  ⟨happlied, hdropped, fun c hc => ⟨c, hcursor.trans hc, UInt64.le_refl c⟩⟩

theorem Grows.refl : Grows S g g := .of_cursor (List.Subset.refl _) (List.Subset.refl _) rfl

theorem Grows.done (h : Grows S g g') {n : ℕ} (hdone : Done g n) : Done g' n := by
  obtain ⟨idx, hidx, hin⟩ := hdone
  exact ⟨idx, hidx, hin.imp (fun hi => h.applied hi) fun hi => h.dropped hi⟩

theorem Grows.settledTo (h : Grows S g g') {idx : ℤ} (hs : SettledTo S g idx) : SettledTo S g' idx := by
  intro rec hrec hle
  obtain haccept | happlied | hdropped := hs rec hrec hle
  · exact .inl haccept
  · exact .inr (.inl (h.applied happlied))
  · exact .inr (.inr (h.dropped hdropped))

theorem Grows.durable (h : Grows S g g') {idx : Int64} (hd : Durable S g idx) : Durable S g' idx := by
  obtain ⟨c, hc, hle⟩ := hd
  obtain ⟨c', hc', hcc⟩ := h.cursor c hc
  exact ⟨c', hc', hle.trans (Int.ofNat_le.2 (UInt64.le_iff_toNat_le.1 hcc))⟩

/-- **A commit** stores the larger of the cursor and the index. -/
theorem cursor_commit (slice : Slice) (mdt : String) (idx : UInt64) (now : Int) :
    ∃ c, (slice.commit mdt idx now).cursor mdt = some c ∧ idx ≤ c ∧
      (c = idx ∨ slice.cursor mdt = some c) ∧ ∀ old, slice.cursor mdt = some old → old ≤ c := by
  unfold Slice.commit Slice.cursor Statement.onSlice
  rw [Std.ExtTreeMap.getElem?_insert_self]
  cases slice.cursors[collationKey mdt]? with
  | none => exact ⟨idx, rfl, UInt64.le_refl idx, .inl rfl, nofun⟩
  | some row =>
    refine ⟨if row.lastRec ≤ idx then idx else row.lastRec, rfl, ?_, ?_, ?_⟩
    · split_ifs with hle
      · exact UInt64.le_refl idx
      · exact UInt64.le_of_lt (UInt64.not_le.1 hle)
    · split_ifs
      · exact .inl rfl
      · exact .inr rfl
    · rintro _ ⟨⟩
      split_ifs with hle
      · exact hle
      · exact UInt64.le_refl _

end Grows

/-! ## §2 — The casts -/

theorem toInt_toInt64 (i : UInt64) : i.toInt64.toInt = (i.toNat : ℤ).bmod (2 ^ 64) :=
  BitVec.toInt_eq_toNat_bmod i.toBitVec

theorem toInt_toInt64_succ (i : UInt64) : (i.toInt64 + 1).toInt = (i.toNat + 1 : ℤ).bmod (2 ^ 64) := by
  rw [Int64.toInt_add, toInt_toInt64]
  exact Int.bmod_add_bmod

theorem toInt_toInt64_succ_le (i : UInt64) : (i.toInt64 + 1).toInt ≤ i.toNat + 1 := by
  have hlt := i.toNat_lt
  rw [toInt_toInt64_succ, Int.bmod_def]
  split_ifs <;> omega

theorem toInt_toInt64_of_nonneg {i : UInt64} (h : 0 ≤ i.toInt64.toInt) : i.toInt64.toInt = i.toNat := by
  have hlt := i.toNat_lt
  rw [toInt_toInt64, Int.bmod_def] at *
  split_ifs at * <;> omega

theorem toNat_toUInt64_of_nonneg {idx : Int64} (h : 0 ≤ idx.toInt) :
    (idx.toUInt64.toNat : ℤ) = idx.toInt := by
  rw [Int64.toNat_toUInt64_of_le (Int64.le_iff_toInt_le.2 h)]
  exact Int.toNat_of_nonneg h

/-! ## §3 — Acknowledgements -/

/-- What `process_acks` has in hand is settled; what it clears is durable. -/
def Stage.AcksOk (S : Setting) (g : Shared) : Stage → Prop
  | .persisting idx _ => 0 ≤ idx.toInt ∧ SettledTo S g idx.toInt
  | .clearing idx _ => 0 ≤ idx.toInt ∧ Durable S g idx
  | _ => True

/-- **The acknowledgements of a pipe are true.** -/
structure AcksOk (S : Setting) (g : Shared) (q : Pipe) : Prop where
  acked : ∀ ack ∈ q.acks, SettledTo S g ack.committedIndex.toNat
  lastCleared : -1 ≤ q.listener.acks.lastCleared.toInt
  pending : ∀ idx, q.listener.acks.pending = some idx → 0 ≤ idx.toInt ∧ SettledTo S g idx.toInt
  stage : q.listener.stage.AcksOk S g

/-- What the pipes share is true: the cursor, the commits on their way and the indices cleared. -/
structure SharedOk (S : Setting) (g : Shared) : Prop where
  cursor : ∀ c, g.cursor S = some c → SettledTo S g c.toNat
  late : ∀ idx ∈ g.late, SettledTo S g idx.toNat
  cleared : ∀ idx ∈ g.cleared, Durable S g idx

section Acks

variable {S : Setting} {g g' : Shared} {q : Pipe}

theorem Stage.AcksOk.mono {stage : Stage} (h : stage.AcksOk S g) (hgrows : Grows S g g') :
    stage.AcksOk S g' := by
  cases stage with
  | persisting => exact ⟨h.1, hgrows.settledTo h.2⟩
  | clearing => exact ⟨h.1, hgrows.durable h.2⟩
  | _ => trivial

theorem AcksOk.mono (h : AcksOk S g q) (hgrows : Grows S g g') : AcksOk S g' q where
  acked ack hack := hgrows.settledTo (h.acked ack hack)
  lastCleared := h.lastCleared
  pending idx hidx := ⟨(h.pending idx hidx).1, hgrows.settledTo (h.pending idx hidx).2⟩
  stage := h.stage.mono hgrows

theorem SharedOk.settledTo_of_durable (h : SharedOk S g) {idx : Int64} (hd : Durable S g idx) :
    SettledTo S g idx.toInt := by
  obtain ⟨c, hc, hle⟩ := hd
  exact (h.cursor c hc).le hle

theorem SharedOk.commit (h : SharedOk S g) {idx : UInt64} (hidx : SettledTo S g idx.toNat) (now : Int) :
    Grows S g { g with slice := g.slice.commit S.cfg.mdt idx now } ∧
      SharedOk S { g with slice := g.slice.commit S.cfg.mdt idx now } ∧
      ∃ c, Shared.cursor S { g with slice := g.slice.commit S.cfg.mdt idx now } = some c ∧ idx ≤ c := by
  obtain ⟨c, hc, hle, horigin, hold⟩ := cursor_commit g.slice S.cfg.mdt idx now
  have hgrows : Grows S g { g with slice := g.slice.commit S.cfg.mdt idx now } :=
    ⟨List.Subset.refl _, List.Subset.refl _, fun old ho => ⟨c, hc, hold old ho⟩⟩
  refine ⟨hgrows, ⟨fun c' hc' => ?_, h.late, fun i hi => hgrows.durable (h.cleared i hi)⟩, c, hc, hle⟩
  obtain rfl : c = c' := Option.some.inj (hc.symm.trans hc')
  obtain rfl | hsame := horigin
  · exact hidx
  · exact h.cursor c hsame

/-- An index that is durable is passed to `clear_changelog`. -/
theorem SharedOk.clear (h : SharedOk S g) {idx : Int64} (hidx : Durable S g idx) :
    Grows S g { g with cleared := idx :: g.cleared } ∧ SharedOk S { g with cleared := idx :: g.cleared } := by
  refine ⟨.of_cursor (List.Subset.refl _) (List.Subset.refl _) rfl, h.cursor, h.late, fun i hi => ?_⟩
  obtain rfl | hi := List.mem_cons.1 hi
  · exact hidx
  · exact h.cleared i hi

theorem AcksOk.take (h : AcksOk S g q) {ack : EventAck} {acks : List EventAck} (hacks : q.acks = ack :: acks) :
    AcksOk S g { q with listener := { q.listener with acks := q.listener.acks.take ack }, acks := acks } := by
  have hmem : ∀ a ∈ acks, a ∈ q.acks := fun a ha => hacks ▸ List.mem_cons_of_mem _ ha
  unfold AckState.take
  dsimp only
  split_ifs with hnew
  · refine ⟨fun a ha => h.acked a (hmem a ha), h.lastCleared, ?_, h.stage⟩
    rintro _ ⟨⟩
    have hlt := Int64.lt_iff_toInt_lt.1 hnew.1
    have hnonneg : 0 ≤ ack.committedIndex.toInt64.toInt := by
      have := h.lastCleared
      omega
    refine ⟨hnonneg, ?_⟩
    rw [toInt_toInt64_of_nonneg hnonneg]
    exact h.acked ack (hacks ▸ List.mem_cons_self)
  · exact ⟨fun a ha => h.acked a (hmem a ha), h.lastCleared, h.pending, h.stage⟩

theorem AcksOk.setStage (h : AcksOk S g q) {stage : Stage} (hstage : stage.AcksOk S g) :
    AcksOk S g (q.setStage stage) := ⟨h.acked, h.lastCleared, h.pending, hstage⟩

theorem acksOk_afterAcks (last : Bool) : (afterAcks last).AcksOk S g := by cases last <;> trivial

theorem acksOk_stage (next : AfterFlush) : next.stage.AcksOk S g := by cases next <;> trivial

theorem AcksOk.flushThen (h : AcksOk S g q) {l : Listener} (hl : l.acks = q.listener.acks)
    (next : AfterFlush) : AcksOk S g { q with listener := l.flushThen next } := by
  obtain ⟨-, heq⟩ | ⟨batch, -, -, heq⟩ := flushThen_cases l next
  · rw [heq]
    exact ⟨h.acked, hl ▸ h.lastCleared, hl ▸ h.pending, acksOk_stage next⟩
  · rw [heq]
    exact ⟨h.acked, hl ▸ h.lastCleared, hl ▸ h.pending, trivial⟩

theorem AcksOk.receive (h : AcksOk S g q) (rec : RawRec) (pushedAt now : ℕ) :
    AcksOk S g { q with listener := q.listener.receive S rec pushedAt now } := by
  cases haccept : S.cfg.accept rec with
  | none =>
    rw [receive_of_none haccept]
    exact h.setStage trivial
  | some env =>
    rw [receive_of_some haccept]
    split_ifs
    · exact h.flushThen (l := q.listener.push rec env pushedAt now) rfl _
    · exact ⟨h.acked, h.lastCleared, h.pending, trivial⟩

theorem grows_receive (batcher : EventBatcher) (rec : RawRec) : Grows S g (g.receive S batcher rec) := by
  unfold Shared.receive
  split
  · exact .refl
  · exact .of_cursor (List.Subset.refl _) (List.subset_append_left _ _) rfl

theorem SharedOk.grow (h : SharedOk S g) (hgrows : Grows S g g') (hcursor : g'.cursor S = g.cursor S)
    (hlate : g'.late = g.late) (hcleared : g'.cleared = g.cleared) : SharedOk S g' where
  cursor c hc := hgrows.settledTo (h.cursor c (hcursor ▸ hc))
  late idx hidx := hgrows.settledTo (h.late idx (hlate ▸ hidx))
  cleared idx hidx := hgrows.durable (h.cleared idx (hcleared ▸ hidx))

/-- **The listener's side**: what is true of the acknowledgements stays true, and so does what is shared. -/
theorem ListenerStep.acksOk {q' : Pipe} (hstep : ListenerStep S g q g' q') (hshared : SharedOk S g)
    (h : AcksOk S g q) : Grows S g g' ∧ SharedOk S g' ∧ AcksOk S g' q' := by
  cases hstep with
  | cancelled _ => exact ⟨.refl, hshared, h.flushThen rfl _⟩
  | opened => exact ⟨.refl, hshared, h.setStage trivial⟩
  | received position rec pushedAt now _ _ =>
    have hgrows := grows_receive (S := S) (g := g) q.listener.batcher rec
    refine ⟨hgrows, hshared.grow hgrows ?_ ?_ ?_, (h.receive rec pushedAt now).mono hgrows⟩ <;>
      (unfold Shared.receive; split <;> rfl)
  | drained position _ => exact ⟨.refl, hshared, h.flushThen rfl _⟩
  | sent batch next =>
    exact ⟨.refl, hshared, ⟨h.acked, h.lastCleared, h.pending, acksOk_stage next⟩⟩
  | sendFailed batch next => exact ⟨.refl, hshared, h.setStage (by cases next <;> trivial)⟩
  | tookAck ack acks last _ hacks => exact ⟨.refl, hshared, h.take hacks⟩
  | nothingPending last => exact ⟨.refl, hshared, h.setStage (acksOk_afterAcks last)⟩
  | pending idx last _ _ hpending => exact ⟨.refl, hshared, h.setStage (h.pending idx hpending)⟩
  | persisted idx last now hstage =>
    have hidx := h.stage
    rw [hstage] at hidx
    have hcast := toNat_toUInt64_of_nonneg hidx.1
    obtain ⟨hgrows, hshared', c, hc, hle⟩ := hshared.commit (hcast ▸ hidx.2) now
    refine ⟨hgrows, hshared', (h.mono hgrows).setStage ⟨hidx.1, c, hc, ?_⟩⟩
    rw [← hcast]
    exact Int.ofNat_le.2 (UInt64.le_iff_toNat_le.1 hle)
  | persistFailed idx last => exact ⟨.refl, hshared, h.setStage (acksOk_afterAcks last)⟩
  | persistLost idx last hstage =>
    have hidx := h.stage
    rw [hstage] at hidx
    have hgrows : Grows S g { g with late := idx.toUInt64 :: g.late } :=
      .of_cursor (List.Subset.refl _) (List.Subset.refl _) rfl
    refine ⟨hgrows, ⟨hshared.cursor, fun i hi => ?_, hshared.cleared⟩,
      (h.mono hgrows).setStage (acksOk_afterAcks last)⟩
    obtain rfl | hi := List.mem_cons.1 hi
    · rw [toNat_toUInt64_of_nonneg hidx.1]
      exact hidx.2
    · exact hshared.late i hi
  | cleared idx last hstage =>
    have hidx := h.stage
    rw [hstage] at hidx
    obtain ⟨hgrows, hshared'⟩ := hshared.clear hidx.2
    refine ⟨hgrows, hshared', ⟨h.acked, ?_, nofun, acksOk_afterAcks last⟩⟩
    exact (by omega : (-1 : ℤ) ≤ 0).trans hidx.1
  | clearFailed idx last hstage =>
    have hidx := h.stage
    rw [hstage] at hidx
    obtain ⟨hgrows, hshared'⟩ := hshared.clear hidx.2
    exact ⟨hgrows, hshared', (h.mono hgrows).setStage (acksOk_afterAcks last)⟩
  | died => exact ⟨.refl, hshared, h.setStage trivial⟩

end Acks

/-! ## §4 — What is in flight is in order -/

/-- How far the batch at hand is: what comes to `commit` was applied. -/
def Consumer.CurrentOk (g : Shared) : Consumer → Prop
  | .looping _ batch todo errors =>
    todo = batch.changes ∧ errors = 0 ∨ todo = [] ∧ (errors = 0 → Done g (positionOf batch))
  | .finishing _ batch _ _ prog => Done g (positionOf batch) ∨ prog = .ret .counted
  | .committing _ batch => Done g (positionOf batch)
  | _ => True

/-- **Nothing is left out**: not before what is in flight, and not before the places the listener reads from
next. -/
structure Flow (S : Setting) (g : Shared) (q : Pipe) : Prop where
  current : q.consumer.CurrentOk g
  order : InOrder (Due S) (Done g) q.inFlight
  passed : q.listener.stage ≠ .stopped →
    Passed (Due S) (Done g) q.inFlight q.listener.nextStart.toInt.toNat
  draining : ∀ p, q.listener.stage.position = some p → Passed (Due S) (Done g) q.inFlight p

section Flow

variable {S : Setting} {g g' : Shared} {q q' : Pipe}

theorem Consumer.CurrentOk.mono {c : Consumer} (h : c.CurrentOk g) (hgrows : Grows S g g') :
    c.CurrentOk g' := by
  cases c with
  | looping =>
    exact h.imp_right fun ⟨htodo, hdone⟩ => ⟨htodo, fun he => hgrows.done (hdone he)⟩
  | finishing => exact h.imp_left hgrows.done
  | committing => exact hgrows.done h
  | _ => trivial

theorem Flow.mono (h : Flow S g q) (hgrows : Grows S g g') : Flow S g' q where
  current := h.current.mono hgrows
  order := h.order.mono fun _ => hgrows.done
  passed hrun := (h.passed hrun).mono fun _ => hgrows.done
  draining p hp := (h.draining p hp).mono fun _ => hgrows.done

theorem eq_of_index_eq {a b : RawRec} (ha : a ∈ S.log) (hb : b ∈ S.log)
    (h : a.index.toNat = b.index.toNat) : a = b := by
  have hindices : (S.log.map RawRec.index).Nodup :=
    List.pairwise_map.2 (S.increasing.imp UInt64.ne_of_lt)
  exact List.inj_on_of_nodup_map hindices ha hb (UInt64.toNat_inj.1 h)

theorem passed_next (hshared : SharedOk S g) {queue : List ℕ} {position : ℕ} {rec : RawRec}
    (hpassed : Passed (Due S) (Done g) queue position) (hnext : Next S g position rec) :
    Passed (Due S) (Done g) queue rec.index.toNat := by
  intro n hdue hlt
  by_cases hn : n < position
  · exact hpassed n hdue hn
  · obtain ⟨r, hr, rfl, haccept⟩ := hdue
    obtain ⟨idx, hidx, hle⟩ := hnext.next r hr (Nat.le_of_not_lt hn) (UInt64.lt_iff_toNat_lt.2 hlt)
    have hsettled := hshared.settledTo_of_durable (hshared.cleared idx hidx)
    exact .inl (hsettled.done ⟨r, hr, rfl, haccept⟩ hle)

theorem passed_succ {queue : List ℕ} {rec : RawRec} (hmem : rec ∈ S.log)
    (hpassed : Passed (Due S) (Done g) queue rec.index.toNat)
    (hrec : S.cfg.accept rec ≠ none → rec.index.toNat ∈ queue) :
    Passed (Due S) (Done g) queue (rec.index.toNat + 1) := by
  intro n hdue hlt
  obtain hlt | rfl := Nat.lt_succ_iff_lt_or_eq.1 hlt
  · exact hpassed n hdue hlt
  · obtain ⟨r, hr, hindex, haccept⟩ := hdue
    obtain rfl := eq_of_index_eq hr hmem hindex
    exact .inr (hrec haccept)

/-- **A push keeps the order**: the record joins the rear, and what the window loses was dropped. -/
theorem inOrder_push {front : List ℕ} {window window' : List ChangelogEventEnvelope} {rec : RawRec}
    {env : ChangelogEventEnvelope} (hmem : rec ∈ S.log) (hindex : env.index = rec.index)
    (hgrows : Grows S g g') (hsub : window'.Sublist (window ++ [env]))
    (hsorted : (window ++ [env]).Pairwise fun a b => a.index < b.index)
    (hdropped : ∀ e ∈ window ++ [env], e ∉ window' → e.index ∈ g'.dropped)
    (horder : InOrder (Due S) (Done g) (front ++ window.map indexOf))
    (hpassed : Passed (Due S) (Done g) (front ++ window.map indexOf) rec.index.toNat) :
    InOrder (Due S) (Done g') (front ++ window'.map indexOf) ∧
      Passed (Due S) (Done g') (front ++ window'.map indexOf) (rec.index.toNat + 1) := by
  have hjoined : front ++ window.map indexOf ++ [rec.index.toNat] =
      front ++ (window ++ [env]).map indexOf := by
    rw [List.map_append, List.append_assoc, ← hindex]
    rfl
  have horder' := horder.append hpassed
  have hpassed' : Passed (Due S) (Done g) (front ++ window.map indexOf ++ [rec.index.toNat])
      (rec.index.toNat + 1) :=
    passed_succ hmem (fun n hdue hlt => (hpassed n hdue hlt).imp_right (List.mem_append_left _))
      fun _ => by simp
  rw [hjoined] at horder' hpassed'
  have hnodup : ((window ++ [env]).map indexOf).Nodup :=
    List.pairwise_map.2 (hsorted.imp fun hlt => (UInt64.lt_iff_toNat_lt.1 hlt).ne)
  have hlost : ∀ n ∈ (window ++ [env]).map indexOf, n ∉ window'.map indexOf → Done g' n := by
    intro n hn hgone
    obtain ⟨e, he, rfl⟩ := List.mem_map.1 hn
    exact ⟨e.index, rfl, .inr (hdropped e he fun hin => hgone (List.mem_map_of_mem hin))⟩
  constructor
  · exact (horder'.mono fun _ => hgrows.done).sublist (hsub.map indexOf) hnodup hlost
  · refine Passed.of_lost (hpassed'.mono fun _ => hgrows.done) fun n hn hgone => ?_
    rw [List.mem_append, not_or] at hgone
    exact hlost n ((List.mem_append.1 hn).resolve_left hgone.1) hgone.2

/-- **A step of the listener keeps the order.** -/
theorem ListenerMove.flow (hmove : ListenerMove S g q g' q') (hshared : SharedOk S g) (hgrows : Grows S g g')
    (hconsumer : q'.consumer = q.consumer) (h : Flow S g q) : Flow S g' q' := by
  have hcurrent : q'.consumer.CurrentOk g' := hconsumer ▸ h.current.mono hgrows
  have hmono := h.mono hgrows
  cases hmove with
  | quiet hrun hflight hstart hposition =>
    refine ⟨hcurrent, hflight ▸ hmono.order, fun _ => ?_, fun p hp => ?_⟩
    · rw [hflight, hstart]
      exact hmono.passed hrun
    · rw [hflight]
      obtain hp | rfl := hposition p hp
      · exact hmono.draining p hp
      · exact hmono.passed hrun
  | skipped position rec hold hnext haccept hflight hstart hnew =>
    have hrun : q.listener.stage ≠ .stopped := by
      intro hs
      rw [hs] at hold
      cases hold
    have hto := passed_succ hnext.mem (passed_next hshared (h.draining position hold) hnext)
      fun hsome => absurd haccept hsome
    refine ⟨hcurrent, hflight ▸ hmono.order, fun _ => ?_, fun p hp => ?_⟩
    · rw [hflight, hstart]
      exact hmono.passed hrun
    · rw [hflight]
      obtain rfl := Option.some.inj (hnew.symm.trans hp)
      exact hto.mono fun _ => hgrows.done
  | pushed position rec env front window window' hold hnext haccept hflight hflight' hsub hsorted hdropped
      hstart hnew =>
    have horder := h.order
    have hto := passed_next hshared (h.draining position hold) hnext
    rw [hflight] at horder hto
    obtain ⟨horder', hpassed'⟩ := inOrder_push hnext.mem (S.cfg.accept_index haccept) hgrows hsub hsorted
      hdropped horder hto
    rw [← hflight'] at horder' hpassed'
    refine ⟨hcurrent, horder', fun _ => hpassed'.le ?_, fun p hp => ?_⟩
    · have hle := toInt_toInt64_succ_le rec.index
      rw [hstart]
      omega
    · obtain rfl := Option.some.inj (hnew.symm.trans hp)
      exact hpassed'
  | gone lost hflight hstopped =>
    have horder := hmono.order
    rw [hflight] at horder
    refine ⟨hcurrent, horder.left, fun hrun => absurd hstopped hrun, fun p hp => ?_⟩
    rw [hstopped] at hp
    cases hp

theorem ConsumerStep.grows (hstep : ConsumerStep S g q g' q') :
    Grows S g g' ∧ g'.cursor S = g.cursor S ∧ g'.late = g.late ∧ g'.cleared = g.cleared := by
  cases hstep with
  | applyStep | finishStep =>
    exact ⟨.of_cursor (List.Subset.refl _) (List.Subset.refl _) rfl, rfl, rfl, rfl⟩
  | answered source batch todo errors event answer =>
    cases answer with
    | ok => exact ⟨.of_cursor (List.subset_cons_self _ _) (List.Subset.refl _) rfl, rfl, rfl, rfl⟩
    | error => exact ⟨.refl, rfl, rfl, rfl⟩
  | _ => exact ⟨.refl, rfl, rfl, rfl⟩

/-- **What comes to `commit` was applied**: the loop reaches it only past an `Ok` of `apply_event`. -/
theorem ConsumerStep.current (hstep : ConsumerStep S g q g' q') (hshape : Shape q)
    (h : q.consumer.CurrentOk g) : q'.consumer.CurrentOk g' := by
  cases hstep with
  | handedOut | received =>
    show (Consumer.enter ..).CurrentOk _
    unfold Consumer.enter
    split_ifs
    · trivial
    · exact .inl ⟨rfl, rfl⟩
  | pendingCheckpoint | closed => trivial
  | change source batch change todo errors hc =>
    have htodo := hshape.todo
    have hsingle := hshape.single
    rw [hc] at htodo hsingle
    obtain ⟨filesystem, env, rfl⟩ := hsingle batch List.mem_cons_self
    obtain ⟨hchange, rfl⟩ | hnil := htodo
    · obtain ⟨rfl, rfl⟩ := List.cons.inj hchange
      obtain ⟨event', -, hbegin⟩ := begin_normalizeLustre S.rt source
        (LustreChangeSource.single filesystem env) [] 0 env.event env.time
      rw [hbegin]
      trivial
    · cases hnil
  | applyStep => trivial
  | answered source batch todo errors event answer =>
    cases answer with
    | ok => exact .inl ⟨batch.checkpoint.position, rfl, .inl List.mem_cons_self⟩
    | error => exact .inr rfl
  | finishStep source batch todo errors prog prog' catalog hc hprog =>
    rw [hc] at h
    obtain hdone | rfl := h
    · exact .inl hdone
    · cases hprog
  | finished source batch todo errors outcome hc =>
    have htodo := hshape.todo
    rw [hc] at h htodo
    cases outcome with
    | fine => exact .inr ⟨htodo, fun _ => h.resolve_right nofun⟩
    | counted => exact .inr ⟨htodo, nofun⟩
    | broken | panicked => trivial
  | allDone source batch errors hc =>
    have hsingle := hshape.single
    rw [hc] at h hsingle
    obtain ⟨filesystem, env, rfl⟩ := hsingle batch List.mem_cons_self
    show (Consumer.done ..).CurrentOk _
    unfold Consumer.done
    split_ifs with herrors
    · obtain ⟨hnil, -⟩ | ⟨-, hdone⟩ := h
      · cases hnil
      · exact hdone herrors
    · trivial
  | committed | commitFailed | died => trivial

end Flow

/-! ## §5 — The whole -/

/-- **What holds of a pipe.** -/
structure PipeOk (S : Setting) (g : Shared) (q : Pipe) : Prop where
  shape : Shape q
  acks : AcksOk S g q
  flow : q.consumer ≠ .stopped → Flow S g q

section Whole

variable {S : Setting} {g g' : Shared} {q q' : Pipe} {s s' : System}

theorem PipeOk.mono (h : PipeOk S g q) (hgrows : Grows S g g') : PipeOk S g' q :=
  ⟨h.shape, h.acks.mono hgrows, fun hlive => (h.flow hlive).mono hgrows⟩

theorem ListenerStep.consumer_eq (hstep : ListenerStep S g q g' q') : q'.consumer = q.consumer := by
  cases hstep <;> rfl

theorem ListenerStep.pipeOk (hstep : ListenerStep S g q g' q') (hshared : SharedOk S g)
    (h : PipeOk S g q) : Grows S g g' ∧ SharedOk S g' ∧ PipeOk S g' q' := by
  obtain ⟨hgrows, hshared', hacks⟩ := hstep.acksOk hshared h.acks
  refine ⟨hgrows, hshared', hstep.shape h.shape, hacks, fun hlive => ?_⟩
  have hconsumer := hstep.consumer_eq
  rw [hconsumer] at hlive
  exact (hstep.move h.shape hlive).flow hshared hgrows hconsumer (h.flow hlive)

theorem ListenerStep.cleared_durable (hstep : ListenerStep S g q g' q')
    (hold : ∀ idx ∈ g.cleared, Durable S g idx) (hstage : q.listener.stage.AcksOk S g) :
    ∀ idx ∈ g'.cleared, Durable S g idx := by
  have hnew : ∀ idx last, q.listener.stage = .clearing idx last →
      ∀ i ∈ idx :: g.cleared, Durable S g i := by
    intro idx last hclearing i hi
    rw [hclearing] at hstage
    obtain rfl | hi := List.mem_cons.1 hi
    · exact hstage.2
    · exact hold i hi
  cases hstep with
  | received =>
    unfold Shared.receive
    split <;> exact hold
  | cleared idx last hclearing | clearFailed idx last hclearing => exact hnew idx last hclearing
  | _ => exact hold

/-- What comes to `commit` is the oldest record in flight, so everything up to it is settled. -/
theorem Flow.settledTo_commit (h : Flow S g q) {source : LustreChangeSource} {batch : ChangeBatch}
    {rest : List ℕ} (hc : q.consumer = .committing source batch)
    (hflight : q.inFlight = positionOf batch :: rest) :
    Done g (positionOf batch) ∧ SettledTo S g batch.checkpoint.position.toNat := by
  have hdone := h.current
  rw [hc] at hdone
  have horder := h.order
  rw [hflight] at horder
  exact ⟨hdone, settledTo_of_done fun n hdue hle => horder.head hdone n hdue (Int.ofNat_le.1 hle)⟩

/-- **A step of the consumer keeps the order.** -/
theorem ConsumerStep.flow (hstep : ConsumerStep S g q g' q') (hshape : Shape q)
    (hlive : q'.consumer ≠ .stopped) (h : Flow S g q) : Flow S g' q' := by
  have hcurrent := hstep.current hshape h.current
  have hmono := h.mono hstep.grows.1
  obtain ⟨hlistener, ⟨-, hflight⟩ | ⟨source, batch, hc, hflight, -⟩⟩ := hstep.move hshape hlive
  · refine ⟨hcurrent, hflight ▸ hmono.order, ?_, ?_⟩ <;> rw [hlistener, hflight]
    · exact hmono.passed
    · exact hmono.draining
  · obtain ⟨hdone, -⟩ := hmono.settledTo_commit hc hflight
    have hpassed := hmono.passed
    have hdraining := hmono.draining
    rw [hflight] at hpassed hdraining
    refine ⟨hcurrent, ?_, ?_, ?_⟩
    · have horder := hmono.order
      rw [hflight] at horder
      exact horder.tail hdone
    · rw [hlistener]
      exact fun hrun => (hpassed hrun).tail hdone
    · rw [hlistener]
      exact fun p hp => (hdraining p hp).tail hdone

/-- **A step of the consumer acknowledges what is settled.** -/
theorem ConsumerStep.acksOk (hstep : ConsumerStep S g q g' q') (hshape : Shape q) (h : AcksOk S g q)
    (hflow : q.consumer ≠ .stopped → Flow S g q) : AcksOk S g' q' := by
  have hgrows := hstep.grows.1
  have hmono := h.mono hgrows
  have hother : q'.listener = q.listener →
      (∀ ack ∈ q'.acks, SettledTo S g' ack.committedIndex.toNat) → AcksOk S g' q' := by
    intro hlistener hacked
    exact ⟨hacked, hlistener ▸ hmono.lastCleared, hlistener ▸ hmono.pending, hlistener ▸ hmono.stage⟩
  by_cases hlive : q'.consumer = .stopped
  · obtain ⟨hlistener, hsame⟩ := hstep.stopped hlive
    exact hother hlistener (hsame ▸ hmono.acked)
  obtain ⟨hlistener, ⟨hsame, -⟩ | ⟨source, batch, hc, hflight, hack⟩⟩ := hstep.move hshape hlive
  · exact hother hlistener (hsame ▸ hmono.acked)
  · obtain ⟨-, hsettled⟩ := ((hflow (hstep.live hlive)).mono hgrows).settledTo_commit hc hflight
    refine hother hlistener fun ack hmem => ?_
    rw [hack] at hmem
    obtain hmem | hmem := List.mem_append.1 hmem
    · exact hmono.acked ack hmem
    · rw [List.mem_singleton.1 hmem]
      exact hsettled

theorem ConsumerStep.pipeOk (hstep : ConsumerStep S g q g' q') (hshared : SharedOk S g)
    (h : PipeOk S g q) : Grows S g g' ∧ SharedOk S g' ∧ PipeOk S g' q' := by
  obtain ⟨hgrows, hcursor, hlate, hcleared⟩ := hstep.grows
  exact ⟨hgrows, hshared.grow hgrows hcursor hlate hcleared, hstep.shape h.shape,
    hstep.acksOk h.shape h.acks h.flow,
    fun hlive => hstep.flow h.shape hlive (h.flow (hstep.live hlive))⟩

theorem SharedOk.settledTo_startRec (hshared : SharedOk S g) :
    SettledTo S g ((startRec (g.cursor S)).toInt - 1) := by
  cases hcursor : g.cursor S with
  | none =>
    intro rec _ hle
    have hzero : (startRec none).toInt = 0 := rfl
    omega
  | some c =>
    have hle := toInt_toInt64_succ_le c
    refine (hshared.cursor c hcursor).le ?_
    show (c.toInt64 + 1).toInt - 1 ≤ _
    omega

theorem toInt_start_pending {start idx : Int64} (h : (AckState.start start).pending = some idx) :
    0 ≤ idx.toInt ∧ idx.toInt = start.toInt - 1 := by
  unfold AckState.start at h
  split_ifs at h with hpos
  obtain rfl := Option.some.inj h
  have hlt : 0 < start.toInt := Int64.lt_iff_toInt_lt.1 hpos
  have hmax := start.toInt_lt
  have hone : (1 : Int64).toInt = 1 := rfl
  rw [Int64.toInt_sub, hone, Int.bmod_eq_of_le (by omega) (by omega)]
  omega

/-- **A pipe that was just started** begins after the cursor, with nothing in flight. -/
theorem PipeOk.start (hshared : SharedOk S g) : PipeOk S g (.start S (g.cursor S)) := by
  have hsettled := hshared.settledTo_startRec
  refine ⟨.start _, ⟨fun _ ha => absurd ha List.not_mem_nil, le_refl (-1 : ℤ), fun idx hidx => ?_, trivial⟩,
    fun _ => ⟨trivial, ?_, fun _ => ?_, nofun⟩⟩
  · obtain ⟨hnonneg, heq⟩ := toInt_start_pending hidx
    exact ⟨hnonneg, heq ▸ hsettled⟩
  · rw [inFlight_start]
    trivial
  · intro n hdue hlt
    refine .inl (hsettled.done hdue ?_)
    have hstart : (Pipe.start S (g.cursor S)).listener.nextStart = startRec (g.cursor S) := rfl
    rw [hstart] at hlt
    omega

/-- **What holds of the whole.** -/
structure SystemOk (S : Setting) (s : System) : Prop where
  shared : SharedOk S s.shared
  pipes : ∀ q ∈ s.pipes, PipeOk S s.shared q

theorem SystemOk.setPipe (h : SystemOk S s) {i : ℕ} (hgrows : Grows S s.shared g) (hshared : SharedOk S g)
    (hpipe : PipeOk S g q) : SystemOk S ⟨g, s.pipes.set i q⟩ := by
  refine ⟨hshared, fun q' hq' => ?_⟩
  obtain hq' | rfl := List.mem_or_eq_of_mem_set hq'
  · exact (h.pipes q' hq').mono hgrows
  · exact hpipe

/-- **One step keeps it**, and nothing that was settled or stored is taken back. -/
theorem Step.systemOk (hstep : Step S s s') (h : SystemOk S s) :
    Grows S s.shared s'.shared ∧ SystemOk S s' := by
  cases hstep with
  | spawned =>
    refine ⟨.refl, h.shared, fun q hq => ?_⟩
    obtain hq | hq := List.mem_append.1 hq
    · exact h.pipes q hq
    · rw [List.mem_singleton.1 hq]
      exact .start h.shared
  | listener _ q _ _ hq hstep | consumer _ q _ _ hq hstep =>
    obtain ⟨hgrows, hshared, hpipe⟩ := hstep.pipeOk h.shared (h.pipes q (List.mem_of_getElem? hq))
    exact ⟨hgrows, h.setPipe hgrows hshared hpipe⟩
  | crashed => exact ⟨.refl, h.shared, fun q hq => absurd hq List.not_mem_nil⟩
  | lateCommit idx now hidx =>
    obtain ⟨hgrows, hshared, -⟩ := h.shared.commit (h.shared.late idx hidx) now
    exact ⟨hgrows, hshared, fun q hq => (h.pipes q hq).mono hgrows⟩
  | others slice hcursor =>
    have hgrows : Grows S s.shared { s.shared with slice := slice } :=
      .of_cursor (List.Subset.refl _) (List.Subset.refl _) hcursor
    exact ⟨hgrows, h.shared.grow hgrows hcursor rfl rfl, fun q hq => (h.pipes q hq).mono hgrows⟩

/-- **What a step clears was durable before it.** -/
theorem Step.cleared_durable (hstep : Step S s s') (h : SystemOk S s) :
    ∀ idx ∈ s'.shared.cleared, Durable S s.shared idx := by
  have hold := h.shared.cleared
  cases hstep with
  | spawned => exact hold
  | listener i q g q' hq hstep =>
    have hstage := (h.pipes q (List.mem_of_getElem? hq)).acks.stage
    exact hstep.cleared_durable hold hstage
  | consumer i q g q' hq hstep =>
    show ∀ idx ∈ g.cleared, _
    rwa [hstep.grows.2.2.2]
  | crashed | lateCommit | others => exact hold

theorem SystemOk.start {slice : Slice} (hslice : slice.cursor S.cfg.mdt = none) :
    SystemOk S (.start slice) where
  shared := ⟨fun _ hc => absurd (hslice.symm.trans hc) nofun, fun _ hi => absurd hi List.not_mem_nil,
    fun _ hi => absurd hi List.not_mem_nil⟩
  pipes _ hq := absurd hq List.not_mem_nil

theorem Reaches.systemOk (h : Reaches S s) : SystemOk S s := by
  obtain ⟨slice, hslice, hrun⟩ := h
  induction hrun with
  | refl => exact .start hslice
  | tail _ hstep ih => exact (hstep.systemOk ih).2

/-- **No record is lost.**  At every moment of every run, whatever crashes: the records up to the durable
cursor and up to every index passed to `clear_changelog` were filtered out or rejected, applied with `Ok`, or
dropped by the deduplicator; the next step does not move the cursor back, and what it clears was durable
before. -/
theorem no_record_lost (h : Reaches S s) :
    (∀ c, s.shared.cursor S = some c → SettledTo S s.shared c.toNat) ∧
      (∀ idx ∈ s.shared.cleared, SettledTo S s.shared idx.toInt) ∧
      ∀ s', Step S s s' →
        (∀ c, s.shared.cursor S = some c → ∃ c', s'.shared.cursor S = some c' ∧ c ≤ c') ∧
        ∀ idx ∈ s'.shared.cleared, Durable S s.shared idx := by
  have hok := h.systemOk
  refine ⟨hok.shared.cursor, fun idx hidx => ?_, fun s' hstep => ⟨?_, ?_⟩⟩
  · exact hok.shared.settledTo_of_durable (hok.shared.cleared idx hidx)
  · exact (hstep.systemOk hok).1.cursor
  · exact hstep.cleared_durable hok

open Sample in
theorem run_five : ∃ s, Reaches (setting [5] (by decide)) s ∧
    s.shared.cursor (setting [5] (by decide)) = some 5 ∧ s.shared.cleared = [5] := by
  let S := setting [5] (by decide)
  let env : ChangelogEventEnvelope := ⟨"lustre-MDT0000", 5, 0, .layout ⟨1, 5, 0⟩⟩
  let q₀ := (Pipe.start S none).setStage (.draining 0)
  let g₀ := (System.start blank).shared
  have hnext : Next S g₀ 0 (layout 5) := by
    refine ⟨List.mem_singleton_self _, Nat.zero_le _, fun r hr _ hlt => ?_⟩
    obtain rfl := List.mem_singleton.1 hr
    exact absurd hlt (UInt64.lt_irrefl _)
  have haccept : S.cfg.accept (layout 5) = some env := rfl
  have hread := run_read (S := S) (q := q₀) rfl rfl hnext haccept
  have hsent := (ListenerStep.sent (S := S) g₀ (q₀.handOver S env) _ _ rfl nofun Nat.zero_lt_one).run
  let q₁ : Pipe :=
    { (q₀.handOver S env).setStage (.draining 6) with events := [alone S.cfg.mdt env] }
  let source := LustreChangeSource.new S.rt.filesystem
  have hone : q₁.events = alone S.cfg.mdt env :: [] := rfl
  have hc : q₁.consumer = .receiving source := rfl
  obtain ⟨c, -, happly⟩ := run_apply (S := S) (g := g₀) rfl hc rfl rfl rfl hone
  let g₁ : Shared := { g₀.setCatalog c with applied := [5] }
  have hack := (ConsumerStep.committed (S := S) g₁ (q₁.atCommit source env []) _ _ rfl rfl nofun
    Nat.zero_lt_one).run
  obtain ⟨q, hcheckpoint⟩ := run_checkpoint (S := S) (g := g₁)
    (q := { q₁ with consumer := .receiving source, events := [], acks := [⟨"lustre-MDT0000", 5⟩] })
    0 rfl rfl rfl rfl (by decide)
  obtain ⟨stored, hstored, -, horigin, -⟩ := cursor_commit g₁.slice S.cfg.mdt 5 0
  have hfive : stored = 5 := horigin.resolve_right nofun
  refine ⟨_, ⟨blank, rfl, (run_start blank rfl).trans (hread.trans (hsent.trans (happly.trans
    (hack.trans hcheckpoint))))⟩, hfive ▸ hstored, rfl⟩

/-- Its settling is what the cursor says. -/
theorem five_settled : ∃ s, Reaches (Sample.setting [5] (by decide)) s ∧ s.shared.cleared = [5] ∧
    SettledTo (Sample.setting [5] (by decide)) s.shared 5 := by
  obtain ⟨s, hreaches, hcursor, hcleared⟩ := run_five
  exact ⟨s, hreaches, hcleared, (no_record_lost hreaches).1 5 hcursor⟩

end Whole

end Robinhood.Pipeline
