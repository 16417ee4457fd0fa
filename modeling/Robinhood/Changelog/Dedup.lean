/-
# Changelog.Dedup — the deduplicator between the reader and the ingest loop

`lustre-changelog/src/dedup.rs`: one queue of pending events for each FID.  A record that undoes the creation
of its object takes that record out of the queue with it; a record whose news the queue already announces is
dropped.  What is left comes out in the order of the record indices.

Nothing is added and nothing is reordered: what is drained is the list that was pushed without the records
that were dropped (`drain_sublist`).
-/
import Mathlib
import Robinhood.Changelog.Event
import Robinhood.Lib.Table

namespace Robinhood.Changelog

open Std (LawfulEqOrd)
open Lib
open Store (LuFid ObjectId)

/-! ## §1 — The rules -/

/-- The list without the last element that satisfies `p`. -/
def removeLast {α : Type*} (p : α → Bool) (l : List α) : List α := (l.reverse.eraseP p).reverse

/-- The elements after the last one that satisfies `p`, the latest first. -/
def sinceLast {α : Type*} (p : α → Bool) (l : List α) : List α := l.reverse.takeWhile fun a => !p a

/-- **`Deduplicator`.**  The hash map of the source is a table here: what `drain` answers is sorted by index
and does not depend on the order of the queues. -/
structure Deduplicator where
  queues : Table LuFid (List ChangelogEventEnvelope)
  pending : ℕ

namespace Deduplicator

/-- `Deduplicator::new`. -/
def new : Deduplicator := ⟨∅, 0⟩

/-- The queue of a FID; `entry(fid).or_default()`. -/
def queue (self : Deduplicator) (fid : LuFid) : List ChangelogEventEnvelope := self.queues.getD fid []

/-- A rename or a hard link: after one of them an unlink is not of the name the object was created under. -/
def relinks (e : ChangelogEventEnvelope) : Bool :=
  e.event.kindName = .renme ∨ e.event.kindName = .hlink

/-- `Deduplicator::should_cancel`. -/
def shouldCancel (queue : List ChangelogEventEnvelope) : ChangelogEvent → Bool
  | .unlink _ _ _ lastLink _ =>
    lastLink && queue.any (fun e => e.event.kindName = .creat) &&
      !(sinceLast (fun e => e.event.kindName = .creat) queue).any relinks
  | .rmdir .. => queue.any fun e => e.event.kindName = .mkdir
  | _ => false

/-- `Deduplicator::is_cancel_partner`. -/
def isCancelPartner (existing : ChangelogEventEnvelope) : ChangelogEvent → Bool
  | .unlink .. => existing.event.kindName = .creat
  | .rmdir .. => existing.event.kindName = .mkdir
  | _ => false

def dominators : EventKind → List EventKind
  | .close => [.close]
  | .trunc => [.trunc, .close]
  | .mtime => [.mtime, .close, .trunc]
  | .ctime => [.ctime, .sattr, .close]
  | .sattr => [.sattr]
  | _ => []

/-- `Deduplicator::is_masked`. -/
def isMasked (queue : List ChangelogEventEnvelope) (new : ChangelogEvent) : Bool :=
  (dominators new.kindName).any fun kind => queue.any fun e => e.event.kindName = kind

/-- **`Deduplicator::push`**: whether the event was accepted, and the queues after it. -/
def push (self : Deduplicator) (env : ChangelogEventEnvelope) : Bool × Deduplicator :=
  let fid := env.event.fid
  let queue := self.queue fid
  if shouldCancel queue env.event then
    let rest := removeLast (fun e => isCancelPartner e env.event) queue
    (false, ⟨if rest = [] then self.queues.erase fid else self.queues.insert fid rest, self.pending - 1⟩)
  else if isMasked queue env.event then (false, ⟨self.queues.insert fid queue, self.pending⟩)
  else (true, ⟨self.queues.insert fid (queue ++ [env]), self.pending + 1⟩)

def pushAll (self : Deduplicator) (records : List ChangelogEventEnvelope) : Deduplicator :=
  records.foldl (fun dedup env => (dedup.push env).2) self

/-- **`Deduplicator::drain`**: all pending events in index order. -/
def drain (self : Deduplicator) : List ChangelogEventEnvelope × Deduplicator :=
  ((self.queues.toList.flatMap Prod.snd).insertionSort fun a b => a.index ≤ b.index, new)

/-! ## §2 — What is pending -/

/-- **`kept` are the pending records**, in the order they came: each queue holds those of its FID. -/
def Pends (self : Deduplicator) (kept : List ChangelogEventEnvelope) : Prop :=
  ∀ fid, self.queue fid = kept.filter fun e => e.event.fid = fid

theorem pends_new : new.Pends [] := fun _ => rfl

section Queues

variable {self : Deduplicator} {fid fid' : LuFid} {q : List ChangelogEventEnvelope} {n : ℕ}

theorem queue_insert : (⟨self.queues.insert fid q, n⟩ : Deduplicator).queue fid' =
    if fid = fid' then q else self.queue fid' := by
  unfold queue
  rw [Std.ExtTreeMap.getD_eq_getD_getElem?, Std.ExtTreeMap.getD_eq_getD_getElem?, Table.getElem?_upsert]
  split_ifs <;> rfl

theorem queue_erase : (⟨self.queues.erase fid, n⟩ : Deduplicator).queue fid' =
    if fid = fid' then [] else self.queue fid' := by
  unfold queue
  rw [Std.ExtTreeMap.getD_eq_getD_getElem?, Std.ExtTreeMap.getD_eq_getD_getElem?, Table.getElem?_delete]
  split_ifs <;> rfl

theorem queue_replace : (⟨if q = [] then self.queues.erase fid else self.queues.insert fid q, n⟩ :
    Deduplicator).queue fid' = if fid = fid' then q else self.queue fid' := by
  split_ifs with hempty hfid hfid
  · rw [queue_erase, if_pos hfid, hempty]
  · rw [queue_erase, if_neg hfid]
  · rw [queue_insert, if_pos hfid]
  · rw [queue_insert, if_neg hfid]

end Queues

theorem removeLast_sublist {α : Type*} (p : α → Bool) (l : List α) : (removeLast p l).Sublist l := by
  have h : (l.reverse.eraseP p).reverse.Sublist l.reverse.reverse := List.eraseP_sublist.reverse
  rwa [List.reverse_reverse] at h

theorem removeLast_filter {α : Type*} (p q : α → Bool) (l : List α) :
    removeLast p (l.filter q) = (removeLast (fun a => p a && q a) l).filter q := by
  rw [removeLast, removeLast, ← List.filter_reverse, List.eraseP_filter, ← List.filter_reverse]

theorem filter_eraseP_of_disjoint {α : Type*} {p q : α → Bool} (h : ∀ a, p a = true → q a = false)
    (l : List α) : (l.eraseP p).filter q = l.filter q := by
  induction l with
  | nil => rfl
  | cons a l ih =>
    rw [List.eraseP_cons]
    cases hp : p a with
    | true => simp [h a hp]
    | false =>
      rw [cond_false, List.filter_cons, List.filter_cons, ih]

theorem filter_removeLast_of_disjoint {α : Type*} {p q : α → Bool} (h : ∀ a, p a = true → q a = false)
    (l : List α) : (removeLast p l).filter q = l.filter q := by
  rw [removeLast, List.filter_reverse, filter_eraseP_of_disjoint h, List.filter_reverse,
    List.reverse_reverse]

def cancels (removal creation : ChangelogEvent) : Bool :=
  match removal with
  | .unlink _ _ _ lastLink _ => lastLink && creation.kindName = .creat
  | .rmdir .. => creation.kindName = .mkdir
  | _ => false

/-- **A record that one of the rules may drop**, going by the list alone: there is an earlier record of the
object that announces the same or that it cancels, or a later one that cancels it. -/
def Droppable (before : List ChangelogEventEnvelope) (env : ChangelogEventEnvelope)
    (after : List ChangelogEventEnvelope) : Prop :=
  (∃ e ∈ before, e.event.fid = env.event.fid ∧
    (e.event.kindName ∈ dominators env.event.kindName ∨ cancels env.event e.event = true)) ∨
  ∃ e ∈ after, e.event.fid = env.event.fid ∧ cancels e.event env.event = true

theorem Droppable.concat {before after : List ChangelogEventEnvelope} {env : ChangelogEventEnvelope}
    (h : Droppable before env after) (last : ChangelogEventEnvelope) :
    Droppable before env (after ++ [last]) := by
  obtain h | ⟨e, he, h⟩ := h
  · exact .inl h
  · exact .inr ⟨e, List.mem_append_left _ he, h⟩

theorem cancels_of_partner {queue : List ChangelogEventEnvelope} {new : ChangelogEvent}
    {e : ChangelogEventEnvelope} (hcancel : shouldCancel queue new = true)
    (hpartner : isCancelPartner e new = true) : cancels new e.event = true := by
  cases new with
  | unlink fid parent name lastLink =>
    have hlast : lastLink = true := by
      simp only [shouldCancel, Bool.and_eq_true] at hcancel
      exact hcancel.1.1
    simp only [cancels, hlast, Bool.true_and]
    exact hpartner
  | rmdir => exact hpartner
  | _ => cases hcancel

theorem exists_partner {queue : List ChangelogEventEnvelope} {new : ChangelogEvent}
    (hcancel : shouldCancel queue new = true) : ∃ e ∈ queue, isCancelPartner e new = true := by
  cases new with
  | unlink =>
    simp only [shouldCancel, Bool.and_eq_true] at hcancel
    obtain ⟨e, he, hkind⟩ := List.any_eq_true.1 hcancel.1.2
    exact ⟨e, he, hkind⟩
  | rmdir =>
    obtain ⟨e, he, hkind⟩ := List.any_eq_true.1 hcancel
    exact ⟨e, he, hkind⟩
  | _ => cases hcancel

theorem exists_dominator {queue : List ChangelogEventEnvelope} {new : ChangelogEvent}
    (hmasked : isMasked queue new = true) : ∃ e ∈ queue, e.event.kindName ∈ dominators new.kindName := by
  obtain ⟨kind, hkind, hqueue⟩ := List.any_eq_true.1 hmasked
  obtain ⟨e, he, heq⟩ := List.any_eq_true.1 hqueue
  exact ⟨e, he, of_decide_eq_true heq ▸ hkind⟩

theorem Pends.droppable_new {self : Deduplicator} {kept : List ChangelogEventEnvelope}
    (h : self.Pends kept) {records : List ChangelogEventEnvelope} (hsub : kept.Sublist records)
    {env : ChangelogEventEnvelope} (hrule : shouldCancel (self.queue env.event.fid) env.event = true ∨
      isMasked (self.queue env.event.fid) env.event = true) : Droppable records env [] := by
  have hqueue : ∀ e ∈ self.queue env.event.fid, e ∈ records ∧ e.event.fid = env.event.fid := by
    intro e he
    rw [h, List.mem_filter, decide_eq_true_eq] at he
    exact ⟨hsub.subset he.1, he.2⟩
  obtain hcancel | hmasked := hrule
  · obtain ⟨e, he, hpartner⟩ := exists_partner hcancel
    obtain ⟨hmem, hfid⟩ := hqueue e he
    exact .inl ⟨e, hmem, hfid, .inr (cancels_of_partner hcancel hpartner)⟩
  · obtain ⟨e, he, hkind⟩ := exists_dominator hmasked
    obtain ⟨hmem, hfid⟩ := hqueue e he
    exact .inl ⟨e, hmem, hfid, .inl hkind⟩

/-- The pending record that a push takes out: the latest partner of a record that cancels. -/
def cancelled (self : Deduplicator) (env : ChangelogEventEnvelope) : Option ChangelogEventEnvelope :=
  if shouldCancel (self.queue env.event.fid) env.event then
    (self.queue env.event.fid).reverse.find? fun e => isCancelPartner e env.event
  else none

/-- The last element that satisfies `p` is what `removeLast` takes. -/
theorem perm_removeLast {α : Type*} {p : α → Bool} {a : α} {l : List α} (h : l.reverse.find? p = some a) :
    l.Perm (a :: removeLast p l) := by
  obtain ⟨hp, before, after, hl, hbefore⟩ := List.find?_eq_some_iff_append.1 h
  have hne : ∀ b ∈ before, ¬ p b = true := fun b hb => by simpa using hbefore b hb
  have herase : l.reverse.eraseP p = before ++ after := by
    rw [hl, List.eraseP_append_right _ hne, List.eraseP_cons_of_pos hp]
  rw [removeLast, herase]
  exact (List.reverse_perm l).symm.trans
    ((hl ▸ List.perm_middle).trans ((List.reverse_perm _).symm.cons a))

/-- **A push** appends the record, drops it as one whose news is announced, or drops it with one that was
pending and that it cancels. -/
theorem Pends.push_cases {self : Deduplicator} {kept : List ChangelogEventEnvelope} (h : self.Pends kept)
    (env : ChangelogEventEnvelope) :
    ((self.push env).1 = true ∧ (self.push env).2.Pends (kept ++ [env]) ∧
      (self.push env).2.pending = self.pending + 1) ∨
    ((self.push env).1 = false ∧ self.cancelled env = none ∧
      isMasked (self.queue env.event.fid) env.event = true ∧ (self.push env).2.Pends kept ∧
      (self.push env).2.pending = self.pending) ∨
    ((self.push env).1 = false ∧ shouldCancel (self.queue env.event.fid) env.event = true ∧
      ∃ gone kept', self.cancelled env = some gone ∧ gone.event.fid = env.event.fid ∧
        cancels env.event gone.event = true ∧ kept.Perm (gone :: kept') ∧ kept'.Sublist kept ∧
        (self.push env).2.Pends kept' ∧ (self.push env).2.pending = self.pending - 1) := by
  unfold Deduplicator.push Deduplicator.cancelled
  dsimp only
  split
  · next hcancel =>
    obtain ⟨e, he, hpartner⟩ := exists_partner hcancel
    obtain ⟨gone, hgone⟩ := Option.isSome_iff_exists.1
      (List.find?_isSome.2 ⟨e, List.mem_reverse.2 he, hpartner⟩ :
        ((self.queue env.event.fid).reverse.find? fun e => isCancelPartner e env.event).isSome)
    have hfound : kept.reverse.find? (fun e => isCancelPartner e env.event && decide (e.event.fid = env.event.fid)) =
        some gone := by
      rw [h, ← List.filter_reverse, List.find?_filter] at hgone
      rw [← hgone]
      exact congrArg (List.find? · kept.reverse) (funext fun e => by simp [Bool.and_comm])
    have hpartner := List.find?_some hfound
    rw [Bool.and_eq_true, decide_eq_true_eq] at hpartner
    refine .inr (.inr ⟨rfl, hcancel, gone, _, hgone, hpartner.2,
      cancels_of_partner hcancel hpartner.1, perm_removeLast hfound, removeLast_sublist _ _, fun fid => ?_, rfl⟩)
    rw [queue_replace, h env.event.fid, removeLast_filter]
    split_ifs with hfid
    · rw [hfid]
    · rw [h fid, filter_removeLast_of_disjoint]
      intro e he
      rw [Bool.and_eq_true, decide_eq_true_eq] at he
      rw [decide_eq_false_iff_not, he.2]
      exact hfid
  split
  · next hmasked =>
    refine .inr (.inl ⟨rfl, rfl, hmasked, fun fid => ?_, rfl⟩)
    rw [queue_insert, h fid]
    split_ifs with hfid
    · rw [hfid, h fid]
    · rfl
  · refine .inl ⟨rfl, fun fid => ?_, rfl⟩
    rw [queue_insert, h fid, List.filter_append]
    split_ifs with hfid
    · rw [hfid, h fid, List.filter_cons, if_pos (decide_eq_true hfid), List.filter_nil]
    · rw [List.filter_cons, if_neg (by simpa using hfid), List.filter_nil, List.append_nil]

theorem Pends.push {self : Deduplicator} {kept : List ChangelogEventEnvelope} (h : self.Pends kept)
    (env : ChangelogEventEnvelope) :
    ∃ kept', (self.push env).2.Pends kept' ∧ kept'.Sublist (kept ++ [env]) ∧
      (∀ e ∈ kept, e ∉ kept' → e.event.fid = env.event.fid ∧ cancels env.event e.event = true) ∧
      (env ∈ kept' ∨ shouldCancel (self.queue env.event.fid) env.event = true ∨
        isMasked (self.queue env.event.fid) env.event = true) := by
  obtain ⟨-, hpends, -⟩ | ⟨-, -, hmasked, hpends, -⟩ |
    ⟨-, hcancel, gone, kept', -, hfid, hcancels, hperm, hsub, hpends, -⟩ := h.push_cases env
  · exact ⟨_, hpends, .refl _, fun e he hgone => absurd (List.mem_append_left _ he) hgone, .inl (by simp)⟩
  · exact ⟨_, hpends, List.sublist_append_left .., fun e he hgone => absurd he hgone, .inr (.inr hmasked)⟩
  · refine ⟨kept', hpends, hsub.trans (List.sublist_append_left ..), fun e he hgone => ?_, .inr (.inl hcancel)⟩
    obtain rfl : e = gone := (List.mem_cons.1 (hperm.subset he)).resolve_right hgone
    exact ⟨hfid, hcancels⟩

/-- **After a list of records** the pending ones are some of them, in their order, and a rule speaks of each
of the others. -/
theorem pends_pushAll (records : List ChangelogEventEnvelope) :
    ∃ kept, (new.pushAll records).Pends kept ∧ kept.Sublist records ∧
      ∀ before env after, records = before ++ env :: after → env ∉ kept → Droppable before env after := by
  induction records using List.reverseRecOn with
  | nil => exact ⟨[], pends_new, .refl _, fun before env after h => by simp at h⟩
  | append_singleton records last ih =>
    obtain ⟨kept, hkept, hsub, hdrop⟩ := ih
    obtain ⟨kept', hkept', hsub', hgone, hnew⟩ := hkept.push last
    refine ⟨kept', ?_, hsub'.trans (hsub.append_right [last]), fun before env after heq hnotin => ?_⟩
    · rw [pushAll, List.foldl_append]
      exact hkept'
    -- the record is the last one, or one of those before
    · obtain rfl | ⟨after, x, rfl⟩ := List.eq_nil_or_concat after
      · obtain ⟨rfl, hlast⟩ := List.append_inj' heq rfl
        obtain rfl : last = env := List.head_eq_of_cons_eq hlast
        exact hkept.droppable_new hsub (hnew.resolve_left hnotin)
      · have hassoc : records ++ [last] = (before ++ env :: after) ++ [x] := by
          rw [heq]
          simp
        obtain ⟨rfl, hlast⟩ := List.append_inj' hassoc rfl
        obtain rfl : last = x := List.head_eq_of_cons_eq hlast
        by_cases hin : env ∈ kept
        · obtain ⟨hfid, hcancels⟩ := hgone env hin hnotin
          exact .inr ⟨last, by simp, hfid.symm, hcancels⟩
        · rw [List.concat_eq_append]
          exact (hdrop before env after rfl hin).concat last

/-! ## §3 — What is drained -/

theorem mem_queues {self : Deduplicator} {fid : LuFid} {q : List ChangelogEventEnvelope}
    (h : (fid, q) ∈ self.queues.toList) : self.queue fid = q := by
  rw [queue, Std.ExtTreeMap.getD_eq_getD_getElem?, Std.ExtTreeMap.mem_toList_iff_getElem?_eq_some.1 h]
  rfl

theorem mem_flatMap_queues {self : Deduplicator} {kept : List ChangelogEventEnvelope}
    (h : self.Pends kept) (e : ChangelogEventEnvelope) :
    e ∈ self.queues.toList.flatMap Prod.snd ↔ e ∈ kept := by
  rw [List.mem_flatMap]
  constructor
  · rintro ⟨⟨fid, q⟩, hmem, he⟩
    rw [← mem_queues hmem, h fid] at he
    exact List.mem_of_mem_filter he
  · intro he
    have hqueue : e ∈ self.queue e.event.fid := by
      rw [h]
      exact List.mem_filter.2 ⟨he, decide_eq_true rfl⟩
    rw [queue, Std.ExtTreeMap.getD_eq_getD_getElem?] at hqueue
    cases hq : self.queues[e.event.fid]? with
    | none => simp [hq] at hqueue
    | some q =>
      rw [hq] at hqueue
      exact ⟨⟨_, q⟩, Std.ExtTreeMap.mem_toList_iff_getElem?_eq_some.2 hq, hqueue⟩

theorem nodup_flatMap_queues {self : Deduplicator} {kept : List ChangelogEventEnvelope}
    (h : self.Pends kept) (hnodup : kept.Nodup) : (self.queues.toList.flatMap Prod.snd).Nodup := by
  refine List.nodup_flatMap.2 ⟨?_, ?_⟩
  · rintro ⟨fid, q⟩ hmem
    rw [← mem_queues hmem, h fid]
    exact hnodup.filter _
  · refine Std.ExtTreeMap.distinct_keys_toList.imp_of_mem ?_
    rintro ⟨fid, q⟩ ⟨fid', q'⟩ hmem hmem' hne e he he'
    rw [← mem_queues hmem, h fid] at he
    rw [← mem_queues hmem', h fid'] at he'
    have hfid : e.event.fid = fid := of_decide_eq_true (List.mem_filter.1 he).2
    have hfid' : e.event.fid = fid' := of_decide_eq_true (List.mem_filter.1 he').2
    exact hne (LawfulEqOrd.compare_eq_iff_eq.2 (hfid.symm.trans hfid'))

theorem nodup_indices {events : List ChangelogEventEnvelope}
    (h : events.Pairwise fun a b => a.index < b.index) : (events.map ChangelogEventEnvelope.index).Nodup :=
  List.pairwise_map.2 (h.imp UInt64.ne_of_lt)

/-- **What is drained is what is pending**, if the records came in index order. -/
theorem drain_eq {self : Deduplicator} {kept : List ChangelogEventEnvelope} (h : self.Pends kept)
    (hsorted : kept.Pairwise fun a b => a.index < b.index) : self.drain.1 = kept := by
  have hindices := nodup_indices hsorted
  have hnodup : kept.Nodup := hindices.of_map
  have hperm :=
    (List.perm_ext_iff_of_nodup (nodup_flatMap_queues h hnodup) hnodup).2 (mem_flatMap_queues h)
  have hdrained : self.drain.1.Perm kept := (List.perm_insertionSort _ _).trans hperm
  have htotal : Std.Total fun a b : ChangelogEventEnvelope => a.index ≤ b.index :=
    ⟨fun a b => UInt64.le_total a.index b.index⟩
  have htrans : IsTrans ChangelogEventEnvelope fun a b => a.index ≤ b.index :=
    ⟨fun _ _ _ => UInt64.le_trans⟩
  refine List.Perm.eq_of_pairwise ?_ (List.pairwise_insertionSort _ _) (hsorted.imp UInt64.le_of_lt)
    hdrained
  intro a b ha hb hab hba
  exact List.inj_on_of_nodup_map hindices (hdrained.subset ha) hb (UInt64.le_antisymm hab hba)

/-- **What comes out of the deduplicator** is the list that went in, without some of its records. -/
theorem drain_sublist {records : List ChangelogEventEnvelope}
    (hsorted : records.Pairwise fun a b => a.index < b.index) :
    (new.pushAll records).drain.1.Sublist records ∧
      ∀ before env after, records = before ++ env :: after → env ∉ (new.pushAll records).drain.1 →
        Droppable before env after := by
  obtain ⟨kept, hkept, hsub, hdrop⟩ := pends_pushAll records
  rw [drain_eq hkept (hsorted.sublist hsub)]
  exact ⟨hsub, hdrop⟩

def closedTwice : List ChangelogEventEnvelope :=
  [⟨"MDT0000", 1, 0, .create ⟨1, 1, 0⟩ ⟨1, 0, 0⟩ [97] none none none⟩,
   ⟨"MDT0000", 2, 0, .close ⟨1, 1, 0⟩ ⟨1, 0, 0⟩ [97]⟩, ⟨"MDT0000", 3, 0, .close ⟨1, 1, 0⟩ ⟨1, 0, 0⟩ [97]⟩]

theorem closedTwice_drained :
    closedTwice.Pairwise (fun a b => a.index < b.index) ∧
      (new.pushAll closedTwice).drain.1.Sublist closedTwice := by
  have hsorted : closedTwice.Pairwise fun a b => a.index < b.index := by decide
  exact ⟨hsorted, (drain_sublist hsorted).1⟩

end Deduplicator

end Robinhood.Changelog
