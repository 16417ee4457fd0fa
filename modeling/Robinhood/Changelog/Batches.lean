/-
# Changelog.Batches — what a batcher emits

Whatever is pushed into an `EventBatcher`, in index order, and whenever it is flushed: the pending count is
the length of the queues, and every event that was pushed is in one batch, still pending, rejected at its
push, or the one partner that a rejected event of the same FID took with it.
-/
import Mathlib
import Robinhood.Changelog.Listener

namespace Robinhood.Changelog

open Lib
open Store (LuFid)

inductive BatcherCall where
  | push (env : ChangelogEventEnvelope) (pushedAt now : ℕ)
  | flush

def BatcherCall.pushed : BatcherCall → Option ChangelogEventEnvelope
  | push env .. => some env
  | flush => none

/-- **A batcher with its history**: the batches it has emitted, and the events it has rejected, each with the
pending event that went with it. -/
structure Batching where
  batcher : EventBatcher
  batches : List EventBatch
  rejected : List (ChangelogEventEnvelope × Option ChangelogEventEnvelope)

namespace Batching

def step (s : Batching) : BatcherCall → Batching
  | .push env pushedAt now =>
    { s with
      batcher := (s.batcher.push env pushedAt now).2
      rejected := if (s.batcher.dedup.push env).1 then s.rejected
        else s.rejected ++ [(env, s.batcher.dedup.cancelled env)] }
  | .flush => { s with batcher := s.batcher.flush.2, batches := s.batches ++ s.batcher.flush.1.toList }

def run (mdt : String) (cfg : BatcherConfig) (calls : List BatcherCall) : Batching :=
  calls.foldl step ⟨.new mdt cfg, [], []⟩

def Ordered (batch : EventBatch) : Prop :=
  (batch.events.Pairwise fun a b => a.index < b.index) ∧
    ∃ first last, batch.events.head? = some first ∧ batch.events.getLast? = some last ∧
      batch.minIndex = first.index ∧ batch.maxIndex = last.index

def partners (s : Batching) : List ChangelogEventEnvelope := s.rejected.filterMap Prod.snd

/-- **The account** of a history in which `pushed` was pushed and `kept` is pending. -/
structure Accounts (s : Batching) (pushed kept : List ChangelogEventEnvelope) : Prop where
  pends : s.batcher.dedup.Pends kept
  sorted : kept.Pairwise fun a b => a.index < b.index
  pending : s.batcher.dedup.pending = kept.length
  nonempty : ∀ (fid : LuFid) q, s.batcher.dedup.queues[fid]? = some q → q ≠ []
  batches : ∀ batch ∈ s.batches, Ordered batch
  total : ∀ e, pushed.count e = (s.batches.flatMap EventBatch.events).count e + kept.count e +
    (s.rejected.map Prod.fst).count e + s.partners.count e
  cancelled : ∀ env gone, (env, some gone) ∈ s.rejected →
    gone.event.fid = env.event.fid ∧ gone.index < env.index ∧ Deduplicator.cancels env.event gone.event = true

theorem nonempty_push {dedup : Deduplicator} (h : ∀ (fid : LuFid) q, dedup.queues[fid]? = some q → q ≠ [])
    (env : ChangelogEventEnvelope) : ∀ (fid : LuFid) q, (dedup.push env).2.queues[fid]? = some q → q ≠ [] := by
  have hinsert : ∀ {queue : List ChangelogEventEnvelope} {fid : LuFid}, queue ≠ [] → ∀ (fid' : LuFid) q,
      (dedup.queues.insert fid queue)[fid']? = some q → q ≠ [] := by
    intro queue fid hqueue fid' q hq
    rw [Table.getElem?_upsert] at hq
    split_ifs at hq
    · cases hq
      exact hqueue
    · exact h _ _ hq
  intro fid q
  unfold Deduplicator.push
  dsimp only
  split
  · dsimp only
    split_ifs with hrest
    · rw [Table.getElem?_delete]
      split_ifs
      · nofun
      · exact h fid q
    · exact hinsert hrest fid q
  split
  · next hmasked =>
    obtain ⟨e, he, -⟩ := Deduplicator.exists_dominator hmasked
    exact hinsert (List.ne_nil_of_mem he) fid q
  · exact hinsert (by simp) fid q

variable {s : Batching} {pushed kept : List ChangelogEventEnvelope}

theorem Accounts.mem_pushed (h : Accounts s pushed kept) {e : ChangelogEventEnvelope} (he : e ∈ kept) :
    e ∈ pushed := by
  have hcount := h.total e
  have hkept := List.count_pos_iff.2 he
  exact List.count_pos_iff.1 (by omega)

theorem Accounts.reject (h : Accounts s pushed kept) {env : ChangelogEventEnvelope} {kept' : List ChangelogEventEnvelope}
    {s' : Batching} (hbatches : s'.batches = s.batches)
    (hrejected : s'.rejected = s.rejected ++ [(env, s.batcher.dedup.cancelled env)])
    (hpends : s'.batcher.dedup.Pends kept') (hsub : kept'.Sublist kept)
    (hcount : s'.batcher.dedup.pending = kept'.length)
    (hnonempty : ∀ (fid : LuFid) q, s'.batcher.dedup.queues[fid]? = some q → q ≠ [])
    (htotal : ∀ e, kept.count e = kept'.count e + (s.batcher.dedup.cancelled env).toList.count e)
    (hcancelled : ∀ gone ∈ s.batcher.dedup.cancelled env, gone.event.fid = env.event.fid ∧ gone.index < env.index ∧
      Deduplicator.cancels env.event gone.event = true) :
    Accounts s' (pushed ++ [env]) kept' where
  pends := hpends
  sorted := h.sorted.sublist hsub
  pending := hcount
  nonempty := hnonempty
  batches := hbatches ▸ h.batches
  total e := by
    have := h.total e
    have := htotal e
    have hpartners : s'.partners = s.partners ++ (s.batcher.dedup.cancelled env).toList := by
      rw [partners, hrejected, List.filterMap_append, partners]
      cases s.batcher.dedup.cancelled env <;> rfl
    rw [hbatches, hpartners, hrejected, List.map_append]
    simp only [List.count_append, List.map_cons, List.map_nil]
    omega
  cancelled env' gone hmem := by
    rw [hrejected, List.mem_append, List.mem_singleton, Prod.mk.injEq] at hmem
    obtain hmem | ⟨rfl, hgone⟩ := hmem
    · exact h.cancelled env' gone hmem
    · exact hcancelled gone hgone.symm

/-- **A push** of an event with a higher index. -/
theorem Accounts.push (h : Accounts s pushed kept) {env : ChangelogEventEnvelope}
    (hindex : ∀ e ∈ pushed, e.index < env.index) (pushedAt now : ℕ) :
    ∃ kept', Accounts (s.step (.push env pushedAt now)) (pushed ++ [env]) kept' := by
  have hkept : ∀ e ∈ kept, e.index < env.index := fun e he => hindex e (h.mem_pushed he)
  have hnonempty := nonempty_push h.nonempty env
  obtain ⟨hacc, hpends, hcount⟩ | ⟨hacc, hgone, -, hpends, hcount⟩ |
    ⟨hacc, -, gone, kept', hgone, hfid, hcancels, hperm, hsub, hpends, hcount⟩ := h.pends.push_cases env
  · have hsame : (s.step (.push env pushedAt now)).rejected = s.rejected := if_pos hacc
    refine ⟨kept ++ [env], hpends, ?_, hcount.trans (by simp [h.pending]), hnonempty, h.batches, fun e => ?_,
      hsame ▸ h.cancelled⟩
    · exact List.pairwise_append.2 ⟨h.sorted, List.pairwise_singleton .., by simpa using hkept⟩
    · have := h.total e
      rw [partners, hsame]
      simp only [List.count_append]
      change _ = List.count e (s.batches.flatMap EventBatch.events) + _ + _ + s.partners.count e
      omega
  · refine ⟨kept, h.reject rfl (if_neg (by simp [hacc])) hpends (.refl _) (hcount.trans h.pending) hnonempty ?_ ?_⟩
    · simp [hgone]
    · simp [hgone]
  · refine ⟨kept', h.reject rfl (if_neg (by simp [hacc])) hpends hsub ?_ hnonempty (fun e => ?_) fun e he => ?_⟩
    · exact hcount.trans (by rw [h.pending, hperm.length_eq]; rfl)
    · rw [hgone, hperm.count_eq, ← List.singleton_append, List.count_append, Nat.add_comm]
      rfl
    · obtain rfl : gone = e := by simpa [hgone] using he
      exact ⟨hfid, hkept _ (hperm.symm.subset List.mem_cons_self), hcancels⟩

/-- **A flush** emits what is pending. -/
theorem Accounts.flush (h : Accounts s pushed kept) : Accounts (s.step .flush) pushed [] := by
  have hdrain : s.batcher.dedup.drain.1 = kept := Deduplicator.drain_eq h.pends h.sorted
  have hbatch : ∀ batch ∈ s.batcher.flush.1, Ordered batch ∧ batch.events = kept := by
    intro batch hbatch
    simp only [EventBatcher.flush, Option.mem_def, Option.ite_none_left_eq_some, hdrain] at hbatch
    obtain ⟨hsome, hbatch⟩ := hbatch
    cases hbatch
    obtain ⟨first, hfirst⟩ := Option.isSome_iff_exists.1 (List.isSome_head?.2 hsome)
    have hlast := List.getLast?_eq_some_getLast hsome
    exact ⟨⟨h.sorted, first, _, hfirst, hlast, by simp [hfirst], by simp [hlast]⟩, rfl⟩
  have hevents : s.batcher.flush.1.toList.flatMap EventBatch.events = kept := by
    cases hflush : s.batcher.flush.1 with
    | none =>
      simp only [EventBatcher.flush, ite_eq_left_iff, reduceCtorEq, imp_false, not_not, hdrain] at hflush
      exact hflush.symm
    | some batch => simpa using (hbatch batch hflush).2
  refine ⟨Deduplicator.pends_new, .nil, rfl, fun fid q hq => ?_, fun batch hmem => ?_, fun e => ?_, h.cancelled⟩
  · cases hq
  · obtain hmem | hmem := List.mem_append.1 hmem
    · exact h.batches batch hmem
    · exact (hbatch batch (Option.mem_toList.1 hmem)).1
  · rw [h.total e]
    change _ = List.count e ((s.batches ++ s.batcher.flush.1.toList).flatMap EventBatch.events) + _ + _ + s.partners.count e
    rw [List.flatMap_append, List.count_append, hevents]
    rfl

theorem accounts_new (mdt : String) (cfg : BatcherConfig) : Accounts ⟨.new mdt cfg, [], []⟩ [] [] where
  pends := Deduplicator.pends_new
  sorted := .nil
  pending := rfl
  nonempty fid q hq := by simp [EventBatcher.new, Deduplicator.new] at hq
  batches batch hbatch := absurd hbatch List.not_mem_nil
  total e := by simp [partners]
  cancelled env gone hmem := absurd hmem List.not_mem_nil

/-- **A run** of calls whose pushes come in index order. -/
theorem accounts_run (mdt : String) (cfg : BatcherConfig) (calls : List BatcherCall)
    (hsorted : (calls.filterMap BatcherCall.pushed).Pairwise fun a b => a.index < b.index) :
    ∃ kept, Accounts (run mdt cfg calls) (calls.filterMap BatcherCall.pushed) kept := by
  induction calls using List.reverseRecOn with
  | nil =>
    exact ⟨[], accounts_new mdt cfg⟩
  | append_singleton calls call ih =>
    rw [List.filterMap_append] at hsorted ⊢
    obtain ⟨kept, h⟩ := ih (List.pairwise_append.1 hsorted).1
    rw [run, List.foldl_append]
    cases call with
    | push env pushedAt now =>
      exact h.push (fun e he => (List.pairwise_append.1 hsorted).2.2 e he env List.mem_cons_self) pushedAt now
    | flush => exact ⟨[], (List.append_nil (calls.filterMap BatcherCall.pushed)).symm ▸ h.flush⟩

/-- **Batching keeps exactly the surviving events.**  After calls whose pushes come in index order: the
pending count is the length of all queues; no queue is empty, and each has only events of its FID, in index
order; every batch is in index order and tells its first and last index; and each pushed event is found once
among the batches, the events still pending, those rejected at their push and the partners that these took
with them, which were pushed earlier, for the same FID, and are cancelled by them. -/
theorem batches_account (mdt : String) (cfg : BatcherConfig) (calls : List BatcherCall)
    (hsorted : (calls.filterMap BatcherCall.pushed).Pairwise fun a b => a.index < b.index) :
    let s := run mdt cfg calls
    s.batcher.dedup.pending = (s.batcher.dedup.queues.toList.map fun queue => queue.2.length).sum ∧
    (∀ queue ∈ s.batcher.dedup.queues.toList, queue.2 ≠ [] ∧ (∀ e ∈ queue.2, e.event.fid = queue.1) ∧
      queue.2.Pairwise fun a b => a.index < b.index) ∧
    (∀ batch ∈ s.batches, Ordered batch) ∧
    (∀ e ∈ calls.filterMap BatcherCall.pushed,
      (s.batches.flatMap EventBatch.events ++ s.batcher.dedup.drain.1 ++ s.rejected.map Prod.fst ++
        s.partners).count e = 1) ∧
    ∀ env gone, (env, some gone) ∈ s.rejected →
      gone.event.fid = env.event.fid ∧ gone.index < env.index ∧ Deduplicator.cancels env.event gone.event = true := by
  intro s
  obtain ⟨kept, h⟩ := accounts_run mdt cfg calls hsorted
  have hnodup : kept.Nodup := (Deduplicator.nodup_indices h.sorted).of_map
  have hqueues : (s.batcher.dedup.queues.toList.flatMap Prod.snd).Perm kept :=
    (List.perm_ext_iff_of_nodup (Deduplicator.nodup_flatMap_queues h.pends hnodup) hnodup).2
      (Deduplicator.mem_flatMap_queues h.pends)
  refine ⟨?_, fun queue hqueue => ?_, h.batches, fun e he => ?_, h.cancelled⟩
  · rw [h.pending, ← hqueues.length_eq, List.length_flatMap]
  · have hq : queue.2 = kept.filter fun e => e.event.fid = queue.1 :=
      (Deduplicator.mem_queues hqueue).symm.trans (h.pends queue.1)
    refine ⟨h.nonempty queue.1 _ (Std.ExtTreeMap.mem_toList_iff_getElem?_eq_some.1 hqueue), ?_, ?_⟩
    · intro e he
      rw [hq] at he
      exact of_decide_eq_true (List.mem_filter.1 he).2
    · rw [hq]
      exact h.sorted.filter _
  · rw [Deduplicator.drain_eq h.pends h.sorted, List.count_append, List.count_append, List.count_append, ← h.total e]
    exact List.count_eq_one_of_mem (Deduplicator.nodup_indices hsorted).of_map he

def shortLived : List BatcherCall :=
  [.push ⟨"MDT0000", 1, 0, .create ⟨1, 5, 0⟩ ⟨1, 1, 0⟩ [97] none none none⟩ 0 0,
    .push ⟨"MDT0000", 2, 0, .close ⟨1, 5, 0⟩ ⟨1, 1, 0⟩ [97]⟩ 0 0,
    .push ⟨"MDT0000", 3, 0, .unlink ⟨1, 5, 0⟩ ⟨1, 1, 0⟩ [97] true false⟩ 0 0, .flush]

/-- Its removal takes the creation with it; each of the three is accounted for once. -/
theorem shortLived_accounted : (run "MDT0000" ⟨5, 10, 50⟩ shortLived).rejected.length = 1 ∧
    ∀ e ∈ shortLived.filterMap BatcherCall.pushed,
      ((run "MDT0000" ⟨5, 10, 50⟩ shortLived).batches.flatMap EventBatch.events ++
        (run "MDT0000" ⟨5, 10, 50⟩ shortLived).batcher.dedup.drain.1 ++
        (run "MDT0000" ⟨5, 10, 50⟩ shortLived).rejected.map Prod.fst ++
        (run "MDT0000" ⟨5, 10, 50⟩ shortLived).partners).count e = 1 :=
  ⟨by decide +kernel, (batches_account "MDT0000" ⟨5, 10, 50⟩ shortLived (by decide +kernel)).2.2.2.1⟩

end Batching

end Robinhood.Changelog
