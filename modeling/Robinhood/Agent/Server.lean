/-
# Agent.Server — Watch and Ack

The agent serves each configured volume's changelog on streams.  A Watch call takes one of `maxStreams`
slots, marks its volume active, reads the volume's cursor and sends what the scan emits above it; after
each send it raises the volume's `delivered` mark.  An Ack call checks its version against that mark and
commits it to the cursor file, holding the server's lock all the while.

The calls of all clients run side by side: a step of the model is one locked section, one send, one call
of a commit, a write-back of the kernel or a crash.  The list of Watch calls is never shortened, so that
it is also the history of what was ever sent; a call of a process that died is `killed`.
-/
import Mathlib
import Robinhood.Agent.Cursor

namespace Robinhood.Agent

open Lib Relation

/-! ## §1 — the server -/

inductive Code
  | ok | cancelled | unknown | invalidArgument | deadlineExceeded | notFound | alreadyExists
  | permissionDenied | resourceExhausted | failedPrecondition | aborted | outOfRange | unimplemented
  | internal | unavailable | dataLoss | unauthenticated
  deriving DecidableEq, Repr

structure Status where
  code : Code
  message : String
  deriving DecidableEq, Repr

namespace Status

def ok : Status := ⟨.ok, ""⟩
def volumeNotConfigured : Status := ⟨.notFound, "volume is not configured"⟩
def maximumStreams : Status := ⟨.resourceExhausted, "maximum concurrent streams reached"⟩
def activeConsumer : Status := ⟨.alreadyExists, "volume already has an active consumer"⟩
def cursorUnavailable : Status := ⟨.internal, "cursor unavailable"⟩
def sourceUnavailable : Status := ⟨.unavailable, "changelog source unavailable"⟩
def versionNotPositive : Status := ⟨.invalidArgument, "version must be positive"⟩
def notDelivered : Status := ⟨.failedPrecondition, "version has not been delivered"⟩
def cursorCommitFailed : Status := ⟨.internal, "cursor commit failed"⟩

end Status

structure ChangelogRecord where
  volume : String
  version : Int64
  entry : String
  deriving DecidableEq, Repr

structure Scanned where
  version : Int64
  entry : String
  deriving DecidableEq, Repr

inductive WatchPhase
  /-- holds a slot -/
  | admitted
  /-- has marked the volume active -/
  | registered
  | scanning
  /-- has sent the version and is about to raise the delivered mark -/
  | recording (version : Int64)
  /-- the scan is over; the volume is still active -/
  | leaving (status : Status)
  /-- the volume is not active any more; the slot is still held -/
  | releasing (status : Status)
  | returned (status : Status)
  | killed
  deriving DecidableEq

namespace WatchPhase

def holdsSlot : WatchPhase → Bool
  | .returned _ | .killed => false
  | _ => true

def isActive : WatchPhase → Bool
  | .registered | .scanning | .recording _ | .leaving _ => true
  | _ => false

end WatchPhase

/-- A Watch call: the cursor it read, and what the scan emitted and the stream took so far. -/
structure Watch where
  volume : String
  phase : WatchPhase
  after : Int64
  scanned : List Scanned
  sent : List Scanned
  /-- the record whose send failed, which ends the scan -/
  failed : Option Scanned

namespace Watch

def start (volume : String) (phase : WatchPhase) : Watch := ⟨volume, phase, 0, [], [], none⟩

def holdsSlot (w : Watch) : Bool := w.phase.holdsSlot

def activeOn (volume : String) (w : Watch) : Bool := w.phase.isActive && w.volume == volume

end Watch

inductive AckPhase
  /-- the version was delivered; the cursor store is not locked yet -/
  | checked
  /-- inside the store's commit, whose lock is held -/
  | committing (phase : CommitPhase)
  | answering (result : Except CursorError Unit)

structure AckCall where
  id : ℕ
  volume : String
  version : Int64
  phase : AckPhase

structure AgentConfig where
  sources : String → Bool
  maxStreams : ℕ

/-- The cursor directory and the memory of the running process. -/
structure Server where
  disk : Disk
  slots : ℕ
  active : String → Bool
  delivered : String → Int64
  watches : List Watch
  ack : Option AckCall

/-- What the clients see of a step. -/
inductive Event
  | quiet
  | opened (stream : ℕ) (volume : String)
  | sent (stream : ℕ) (record : ChangelogRecord)
  | entered (id : ℕ) (volume : String) (version : Int64)
  | rejected (id : ℕ) (volume : String) (version : Int64) (status : Status)
  | answered (id : ℕ) (volume : String) (version : Int64) (status : Status)
  | crashed

namespace Server

def MuFree (s : Server) : Prop := s.ack = none

def StoreFree (s : Server) : Prop := ∀ a, s.ack = some a → ∀ p, a.phase ≠ .committing p

def putWatch (s : Server) (i : ℕ) (w : Watch) : Server := { s with watches := s.watches.set i w }

def addWatch (s : Server) (w : Watch) : Server := { s with watches := s.watches ++ [w] }

end Server

/-- The status a Watch returns when its scan is over: a cancelled or timed-out call is no error. -/
inductive ScanStatus : Status → Prop
  | finished : ScanStatus Status.ok
  | failed : ScanStatus Status.sourceUnavailable

def raiseDelivered (delivered : String → Int64) (volume : String) (version : Int64) : String → Int64 :=
  if delivered volume < version then Function.update delivered volume version else delivered

inductive WatchStep (cfg : AgentConfig) : Server → Event → Server → Prop
  | notFound (s : Server) (volume : String) : cfg.sources volume = false →
      WatchStep cfg s (.opened s.watches.length volume)
        (s.addWatch (.start volume (.returned .volumeNotConfigured)))
  | exhausted (s : Server) (volume : String) : cfg.sources volume = true → cfg.maxStreams ≤ s.slots →
      WatchStep cfg s (.opened s.watches.length volume)
        (s.addWatch (.start volume (.returned .maximumStreams)))
  | admitted (s : Server) (volume : String) : cfg.sources volume = true → s.slots < cfg.maxStreams →
      WatchStep cfg s (.opened s.watches.length volume)
        { s.addWatch (.start volume .admitted) with slots := s.slots + 1 }
  | registered (s : Server) (i : ℕ) (w : Watch) : s.watches[i]? = some w → w.phase = .admitted →
      s.MuFree → s.active w.volume = false →
      WatchStep cfg s .quiet
        { s.putWatch i { w with phase := .registered } with
          active := Function.update s.active w.volume true }
  | refused (s : Server) (i : ℕ) (w : Watch) : s.watches[i]? = some w → w.phase = .admitted →
      s.MuFree → s.active w.volume = true →
      WatchStep cfg s .quiet (s.putWatch i { w with phase := .releasing .activeConsumer })
  | cursorRead (s : Server) (i : ℕ) (w : Watch) (name : String) (after : Int64) :
      s.watches[i]? = some w → w.phase = .registered → path w.volume = .ok name → s.StoreFree →
      readCursor s.disk name = .ok after →
      WatchStep cfg s .quiet (s.putWatch i { w with phase := .scanning, after := after })
  -- the name is unsafe, the text is invalid or the read itself fails
  | cursorUnavailable (s : Server) (i : ℕ) (w : Watch) : s.watches[i]? = some w →
      w.phase = .registered →
      WatchStep cfg s .quiet (s.putWatch i { w with phase := .leaving .cursorUnavailable })
  -- the filter in front of the callback drops what the cursor covers
  | dropped (s : Server) (i : ℕ) (w : Watch) (r : Scanned) : s.watches[i]? = some w →
      w.phase = .scanning → r.version ≤ w.after →
      WatchStep cfg s .quiet (s.putWatch i { w with scanned := w.scanned ++ [r] })
  | sent (s : Server) (i : ℕ) (w : Watch) (r : Scanned) : s.watches[i]? = some w →
      w.phase = .scanning → w.after < r.version →
      WatchStep cfg s (.sent i ⟨w.volume, r.version, r.entry⟩)
        (s.putWatch i { w with
          phase := .recording r.version, scanned := w.scanned ++ [r], sent := w.sent ++ [r] })
  | sendFailed (s : Server) (i : ℕ) (w : Watch) (r : Scanned) (st : Status) : s.watches[i]? = some w →
      w.phase = .scanning → w.after < r.version → ScanStatus st →
      WatchStep cfg s .quiet
        (s.putWatch i { w with phase := .leaving st, scanned := w.scanned ++ [r], failed := some r })
  | recorded (s : Server) (i : ℕ) (w : Watch) (version : Int64) : s.watches[i]? = some w →
      w.phase = .recording version → s.MuFree →
      WatchStep cfg s .quiet
        { s.putWatch i { w with phase := .scanning } with
          delivered := raiseDelivered s.delivered w.volume version }
  | scanEnded (s : Server) (i : ℕ) (w : Watch) (st : Status) : s.watches[i]? = some w →
      w.phase = .scanning → ScanStatus st →
      WatchStep cfg s .quiet (s.putWatch i { w with phase := .leaving st })
  | deregistered (s : Server) (i : ℕ) (w : Watch) (st : Status) : s.watches[i]? = some w →
      w.phase = .leaving st → s.MuFree →
      WatchStep cfg s .quiet
        { s.putWatch i { w with phase := .releasing st } with
          active := Function.update s.active w.volume false }
  | released (s : Server) (i : ℕ) (w : Watch) (st : Status) : s.watches[i]? = some w →
      w.phase = .releasing st →
      WatchStep cfg s .quiet
        { s.putWatch i { w with phase := .returned st } with slots := s.slots - 1 }

def commitStatus : Except CursorError Unit → Status
  | .ok () => .ok
  | .error _ => .cursorCommitFailed

inductive AckStep (cfg : AgentConfig) : Server → Event → Server → Prop
  | notFound (s : Server) (id : ℕ) (volume : String) (version : Int64) : cfg.sources volume = false →
      AckStep cfg s (.rejected id volume version .volumeNotConfigured) s
  | notPositive (s : Server) (id : ℕ) (volume : String) (version : Int64) :
      cfg.sources volume = true → version ≤ 0 →
      AckStep cfg s (.rejected id volume version .versionNotPositive) s
  | notDelivered (s : Server) (id : ℕ) (volume : String) (version : Int64) :
      cfg.sources volume = true → 0 < version → s.MuFree → s.delivered volume < version →
      AckStep cfg s (.rejected id volume version .notDelivered) s
  | entered (s : Server) (id : ℕ) (volume : String) (version : Int64) :
      cfg.sources volume = true → 0 < version → s.MuFree → version ≤ s.delivered volume →
      AckStep cfg s (.entered id volume version) { s with ack := some ⟨id, volume, version, .checked⟩ }
  | writing (s : Server) (a : AckCall) : s.ack = some a → a.phase = .checked →
      commitChecks s.disk a.volume a.version = .ok true →
      AckStep cfg s .quiet { s with ack := some { a with phase := .committing .create } }
  -- the cursor is this version already: nothing is written, and nothing synced
  | unchanged (s : Server) (a : AckCall) : s.ack = some a → a.phase = .checked →
      commitChecks s.disk a.volume a.version = .ok false →
      AckStep cfg s .quiet { s with ack := some { a with phase := .answering (.ok ()) } }
  -- a check fails, or the read of the cursor does
  | refused (s : Server) (a : AckCall) (e : CursorError) : s.ack = some a → a.phase = .checked →
      AckStep cfg s .quiet { s with ack := some { a with phase := .answering (.error e) } }
  | commit (s : Server) (a : AckCall) (p p' : CommitPhase) (d : Disk) : s.ack = some a →
      a.phase = .committing p → CommitStep a.volume a.version s.disk p d p' →
      AckStep cfg s .quiet { s with disk := d, ack := some { a with phase := .committing p' } }
  | committed (s : Server) (a : AckCall) (result : Except CursorError Unit) : s.ack = some a →
      a.phase = .committing (.done result) →
      AckStep cfg s .quiet { s with ack := some { a with phase := .answering result } }
  | answered (s : Server) (a : AckCall) (result : Except CursorError Unit) : s.ack = some a →
      a.phase = .answering result →
      AckStep cfg s (.answered a.id a.volume a.version (commitStatus result)) { s with ack := none }

/-- A new process on a directory; of the earlier calls only the history is left. -/
def Server.restart (s : Server) (d : Disk) : Server where
  disk := d
  slots := 0
  active _ := false
  delivered _ := 0
  watches := s.watches.map fun w => { w with phase := .killed }
  ack := none

inductive MachineStep : Server → Event → Server → Prop
  | writeback (s : Server) (d : Disk) : DurableDir.Writeback s.disk d →
      MachineStep s .quiet { s with disk := d }
  | processCrash (s : Server) : MachineStep s .crashed (s.restart s.disk)
  | hostCrash (s : Server) (d : Disk) : DurableDir.Crash s.disk d → MachineStep s .crashed (s.restart d)

/-- **One step of the agent**: of some Watch, of some Ack, or of the machine. -/
inductive Step (cfg : AgentConfig) : Server → Event → Server → Prop
  | watch {s s' : Server} {e : Event} : WatchStep cfg s e s' → Step cfg s e s'
  | ack {s s' : Server} {e : Event} : AckStep cfg s e s' → Step cfg s e s'
  | machine {s s' : Server} {e : Event} : MachineStep s e s' → Step cfg s e s'

def Runs (cfg : AgentConfig) : Server → Server → Prop := ReflTransGen fun s s' => ∃ e, Step cfg s e s'

/-! ## §2 — slots and active volumes -/

theorem countP_set_add {α : Type} {p : α → Bool} {l : List α} {i : ℕ} {a : α} (h : l[i]? = some a)
    (b : α) : (l.set i b).countP p + (p a).toNat = l.countP p + (p b).toNat := by
  obtain ⟨hi, rfl⟩ := List.getElem?_eq_some_iff.1 h
  rw [List.countP_set hi]
  cases hp : p l[i] with
  | false => cases p b <;> simp
  | true =>
    have hpos : 0 < l.countP p := List.countP_pos_iff.2 ⟨_, List.getElem_mem hi, hp⟩
    cases p b <;> simp <;> omega

/-- **The calls in progress are counted**: the slots taken are the calls that hold one, and a volume is
marked active exactly while one call is active on it. -/
structure Counted (cfg : AgentConfig) (s : Server) : Prop where
  slots : s.slots = s.watches.countP Watch.holdsSlot
  bound : s.slots ≤ cfg.maxStreams
  active : ∀ u, s.watches.countP (Watch.activeOn u) = (s.active u).toNat

section Counted

variable {cfg : AgentConfig} {s s' : Server} {e : Event} {i : ℕ} {w w' : Watch} {q q' : WatchPhase}

theorem countP_holdsSlot_set (w' : Watch) (hi : s.watches[i]? = some w) (hq : w.phase = q)
    (hq' : w'.phase = q') :
    (s.putWatch i w').watches.countP Watch.holdsSlot + q.holdsSlot.toNat =
      s.watches.countP Watch.holdsSlot + q'.holdsSlot.toNat := by
  have hset := countP_set_add (p := Watch.holdsSlot) hi w'
  simp only [Watch.holdsSlot, hq, hq'] at hset
  exact hset

theorem countP_activeOn_set (w' : Watch) (hi : s.watches[i]? = some w) (hq : w.phase = q)
    (hq' : w'.phase = q') (hv : w'.volume = w.volume) (u : String) :
    (s.putWatch i w').watches.countP (Watch.activeOn u) + (q.isActive && w.volume == u).toNat =
      s.watches.countP (Watch.activeOn u) + (q'.isActive && w.volume == u).toNat := by
  have hset := countP_set_add (p := Watch.activeOn u) hi w'
  simp only [Watch.activeOn, hq, hq', hv] at hset
  exact hset

theorem Counted.putWatch (h : Counted cfg s) (hi : s.watches[i]? = some w) (hq : w.phase = q)
    (hq' : w'.phase = q') (hv : w'.volume = w.volume) (hslot : q'.holdsSlot = q.holdsSlot)
    (hactive : q'.isActive = q.isActive) : Counted cfg (s.putWatch i w') where
  slots := by
    have hset := countP_holdsSlot_set w' hi hq hq'
    rw [hslot] at hset
    exact h.slots.trans (Nat.add_right_cancel hset).symm
  bound := h.bound
  active u := by
    have hset := countP_activeOn_set w' hi hq hq' hv u
    rw [hactive] at hset
    exact (Nat.add_right_cancel hset).trans (h.active u)

theorem Counted.mark (h : Counted cfg s) (hi : s.watches[i]? = some w) (hq : w.phase = q)
    (hq' : w'.phase = q') (hv : w'.volume = w.volume) (hslot : q'.holdsSlot = q.holdsSlot)
    (hold : s.active w.volume = q.isActive) :
    Counted cfg { s.putWatch i w' with active := Function.update s.active w.volume q'.isActive } where
  slots := by
    have hset := countP_holdsSlot_set w' hi hq hq'
    rw [hslot] at hset
    exact h.slots.trans (Nat.add_right_cancel hset).symm
  bound := h.bound
  active u := by
    have hset := countP_activeOn_set w' hi hq hq' hv u
    rw [h.active u] at hset
    by_cases hu : w.volume = u
    · subst hu
      simp only [hold, beq_self_eq_true, Bool.and_true] at hset
      simpa using Nat.add_left_cancel ((Nat.add_comm _ _).trans hset)
    · have hne : u ≠ w.volume := fun h => hu h.symm
      simpa [beq_false_of_ne hu, Function.update_of_ne hne] using hset

theorem Counted.addWatch (h : Counted cfg s) (hslot : w.holdsSlot = false)
    (hactive : ∀ u, w.activeOn u = false) : Counted cfg (s.addWatch w) where
  slots := by simpa [Server.addWatch, hslot] using h.slots
  bound := h.bound
  active u := by simpa [Server.addWatch, hactive] using h.active u

theorem Counted.marked (h : Counted cfg s) (hi : s.watches[i]? = some w)
    (hactive : w.phase.isActive = true) : s.active w.volume = true := by
  have hpos : 0 < s.watches.countP (Watch.activeOn w.volume) :=
    List.countP_pos_iff.2 ⟨w, List.mem_of_getElem? hi, by simp [Watch.activeOn, hactive]⟩
  rw [h.active] at hpos
  cases hm : s.active w.volume with
  | false => simp [hm] at hpos
  | true => rfl

theorem Counted.watchStep (h : Counted cfg s) (hstep : WatchStep cfg s e s') : Counted cfg s' := by
  cases hstep with
  | notFound | exhausted => exact h.addWatch rfl fun _ => rfl
  | admitted volume _ hlt =>
    refine ⟨?_, hlt, fun u => ?_⟩
    · simpa [Server.addWatch, Watch.start, Watch.holdsSlot, WatchPhase.holdsSlot] using h.slots
    · simpa [Server.addWatch, Watch.start, Watch.activeOn, WatchPhase.isActive] using h.active u
  | registered i w hi hphase _ hactive => exact h.mark hi hphase rfl rfl rfl hactive
  | refused _ _ hi hphase | cursorRead _ _ _ _ hi hphase | cursorUnavailable _ _ hi hphase =>
    exact h.putWatch hi hphase rfl rfl rfl rfl
  | dropped i w r hi => exact h.putWatch hi rfl rfl rfl rfl rfl
  | sent _ _ _ hi hphase | sendFailed _ _ _ _ hi hphase => exact h.putWatch hi hphase rfl rfl rfl rfl
  | recorded i w version hi hphase =>
    have hput : Counted cfg (s.putWatch i { w with phase := .scanning }) :=
      h.putWatch hi hphase rfl rfl rfl rfl
    exact ⟨hput.slots, hput.bound, hput.active⟩
  | scanEnded i w st hi hphase => exact h.putWatch hi hphase rfl rfl rfl rfl
  | deregistered i w st hi hphase =>
    exact h.mark hi hphase rfl rfl rfl (h.marked hi (by rw [hphase]; rfl))
  | released i w st hi hphase =>
    refine ⟨?_, (Nat.sub_le _ _).trans h.bound, fun u => ?_⟩
    · have hset := countP_holdsSlot_set { w with phase := .returned st } hi hphase rfl
      have hold := h.slots
      simp only [WatchPhase.holdsSlot, Bool.toNat_true, Bool.toNat_false] at hset
      show s.slots - 1 = (s.putWatch i { w with phase := .returned st }).watches.countP Watch.holdsSlot
      omega
    · have hset := countP_activeOn_set { w with phase := .returned st } hi hphase rfl rfl u
      exact (Nat.add_right_cancel hset).trans (h.active u)

theorem Counted.of_eq (h : Counted cfg s) (hwatches : s'.watches = s.watches)
    (hslots : s'.slots = s.slots) (hactive : s'.active = s.active) : Counted cfg s' where
  slots := by rw [hslots, hwatches, h.slots]
  bound := hslots ▸ h.bound
  active u := by rw [hactive, hwatches, h.active]

theorem Counted.restart (d : Disk) : Counted cfg (s.restart d) where
  slots := by
    symm
    rw [Server.restart, List.countP_eq_zero]
    intro w hw
    obtain ⟨v, -, rfl⟩ := List.mem_map.1 hw
    simp [Watch.holdsSlot, WatchPhase.holdsSlot]
  bound := Nat.zero_le _
  active u := by
    rw [Server.restart, Bool.toNat_false, List.countP_eq_zero]
    intro w hw
    obtain ⟨v, -, rfl⟩ := List.mem_map.1 hw
    simp [Watch.activeOn, WatchPhase.isActive]

end Counted

/-! ## §3 — what was sent, and what is marked as delivered -/

def Server.Sent (s : Server) (u : String) (v : Int64) : Prop :=
  ∃ w ∈ s.watches, w.volume = u ∧ ∃ r ∈ w.sent, r.version = v

/-- **A call's own history**: it has sent, of what was scanned, what is above its cursor, in that
order; a failed send is the last one. -/
structure Watch.Faithful (w : Watch) : Prop where
  filtered : w.sent ++ w.failed.toList = w.scanned.filter fun r => w.after < r.version
  unread : w.phase = .admitted ∨ w.phase = .registered → w.scanned = []
  running : w.failed ≠ none → w.phase ≠ .scanning ∧ ∀ v, w.phase ≠ .recording v
  recording : ∀ v, w.phase = .recording v → ∃ r ∈ w.sent, r.version = v

theorem Watch.Faithful.failed_none {w : Watch} (h : w.Faithful) (hq : w.phase = .scanning) :
    w.failed = none := by
  by_contra hf
  exact (h.running hf).1 hq

theorem Watch.Faithful.phase {w : Watch} (h : w.Faithful) {q : WatchPhase}
    (hunread : q = .admitted ∨ q = .registered → w.scanned = [])
    (hrunning : q = .scanning → w.failed = none) (hrecording : ∀ v, q ≠ .recording v) :
    Watch.Faithful { w with phase := q } where
  filtered := h.filtered
  unread := hunread
  running hf := ⟨fun hq => hf (hrunning hq), hrecording⟩
  recording v hv := absurd hv (hrecording v)

theorem WatchStep.watches {cfg : AgentConfig} {s s' : Server} {e : Event} (h : WatchStep cfg s e s') :
    (∃ volume q, s'.watches = s.watches ++ [Watch.start volume q] ∧
      (q = .admitted ∨ ∃ st, q = .returned st)) ∨
    ∃ i w w', s.watches[i]? = some w ∧ s'.watches = s.watches.set i w' ∧ w'.volume = w.volume ∧
      w.sent <+: w'.sent ∧ w.phase ≠ .killed ∧ (w.Faithful → w'.Faithful) := by
  cases h with
  | notFound volume | exhausted volume => exact .inl ⟨volume, _, rfl, .inr ⟨_, rfl⟩⟩
  | admitted volume _ _ => exact .inl ⟨volume, _, rfl, .inl rfl⟩
  | registered i w hi hq _ _ =>
    exact .inr ⟨i, w, _, hi, rfl, rfl, List.prefix_rfl, by simp [hq],
      fun hw => hw.phase (fun _ => hw.unread (.inl hq)) nofun nofun⟩
  | refused i w hi hq _ _ =>
    exact .inr ⟨i, w, _, hi, rfl, rfl, List.prefix_rfl, by simp [hq],
      fun hw => hw.phase nofun nofun nofun⟩
  | cursorRead i w name after hi hq _ _ _ =>
    refine .inr ⟨i, w, _, hi, rfl, rfl, List.prefix_rfl, by simp [hq], fun hw => ?_⟩
    have hnone := hw.filtered
    rw [hw.unread (.inr hq), List.filter_nil, List.append_eq_nil_iff] at hnone
    have hfailed : w.failed = none := by simpa using hnone.2
    exact ⟨by simp [hnone.1, hfailed, hw.unread (.inr hq)], nofun, fun hf => absurd hfailed hf, nofun⟩
  | cursorUnavailable i w hi hq =>
    exact .inr ⟨i, w, _, hi, rfl, rfl, List.prefix_rfl, by simp [hq],
      fun hw => hw.phase nofun nofun nofun⟩
  | dropped i w r hi hq =>
    refine .inr ⟨i, w, _, hi, rfl, rfl, List.prefix_rfl, by simp [hq], fun hw => ?_⟩
    have hnot : ¬ w.after < r.version := by grind
    exact ⟨by simpa [hnot] using hw.filtered, by simp [hq], hw.running, hw.recording⟩
  | sent i w r hi hq hlt =>
    refine .inr ⟨i, w, _, hi, rfl, rfl, List.prefix_append _ _, by simp [hq], fun hw => ?_⟩
    have hfailed := hw.failed_none hq
    have hfiltered := hw.filtered
    simp only [hfailed, Option.toList_none, List.append_nil] at hfiltered
    exact ⟨by simp [hlt, hfiltered, hfailed], nofun, fun hf => absurd hfailed hf,
      fun v hv => ⟨r, by simp, by cases hv; rfl⟩⟩
  | sendFailed i w r st hi hq hlt _ =>
    refine .inr ⟨i, w, _, hi, rfl, rfl, List.prefix_rfl, by simp [hq], fun hw => ?_⟩
    have hfailed := hw.failed_none hq
    have hfiltered := hw.filtered
    simp only [hfailed, Option.toList_none, List.append_nil] at hfiltered
    exact ⟨by simp [hlt, hfiltered], nofun, fun _ => ⟨nofun, nofun⟩, nofun⟩
  | recorded i w version hi hq _ =>
    refine .inr ⟨i, w, _, hi, rfl, rfl, List.prefix_rfl, by simp [hq], fun hw => ?_⟩
    refine hw.phase nofun (fun _ => ?_) nofun
    by_contra hf
    exact (hw.running hf).2 version hq
  | scanEnded i w _ hi hq | deregistered i w _ hi hq | released i w _ hi hq =>
    exact .inr ⟨i, w, _, hi, rfl, rfl, List.prefix_rfl, by simp [hq],
      fun hw => hw.phase nofun nofun nofun⟩

section Delivery

variable {cfg : AgentConfig} {s s' : Server} {e : Event} {u : String} {v : Int64}

theorem WatchStep.sent_mono (h : WatchStep cfg s e s') (hv : s.Sent u v) : s'.Sent u v := by
  obtain ⟨w, hw, hu, r, hr, hrv⟩ := hv
  rcases h.watches with ⟨volume, q, hs', -⟩ | ⟨i, x, x', hi, hs', hvol, hpre, -, -⟩
  · exact ⟨w, by simp [hs', hw], hu, r, hr, hrv⟩
  · obtain ⟨j, hj⟩ := List.mem_iff_getElem?.1 hw
    by_cases hij : i = j
    · subst hij
      obtain rfl : x = w := Option.some.inj (hi.symm.trans hj)
      have hlt := (List.getElem?_eq_some_iff.1 hi).1
      exact ⟨x', by rw [hs']; exact List.mem_set hlt x', hvol.trans hu, r, hpre.subset hr, hrv⟩
    · have hj' : s'.watches[j]? = some w := by rw [hs', List.getElem?_set_ne hij, hj]
      exact ⟨w, List.mem_of_getElem? hj', hu, r, hr, hrv⟩

theorem Sent.restart {d : Disk} (hv : s.Sent u v) : (s.restart d).Sent u v := by
  obtain ⟨w, hw, hu, r, hr, hrv⟩ := hv
  exact ⟨_, List.mem_map_of_mem hw, hu, r, hr, hrv⟩

theorem WatchStep.faithful (h : WatchStep cfg s e s') (hf : ∀ w ∈ s.watches, w.Faithful) :
    ∀ w ∈ s'.watches, w.Faithful := by
  intro w hw
  rcases h.watches with ⟨volume, q, hs', hq⟩ | ⟨i, x, x', hi, hs', -, -, -, hx⟩
  · rw [hs', List.mem_append, List.mem_singleton] at hw
    rcases hw with hw | rfl
    · exact hf w hw
    · refine ⟨rfl, fun _ => rfl, fun hne => absurd rfl hne, ?_⟩
      rintro v (rfl : q = .recording v)
      simp at hq
  · rw [hs'] at hw
    rcases List.mem_or_eq_of_mem_set hw with hw | rfl
    · exact hf w hw
    · exact hx (hf x (List.mem_of_getElem? hi))

/-- **The delivered marks**: a mark is a version that was sent, and every version the process sent is
marked, or its call is about to mark it. -/
structure Marked (s : Server) : Prop where
  sent : ∀ u, s.delivered u = 0 ∨ s.Sent u (s.delivered u)
  recorded : ∀ w ∈ s.watches, w.phase ≠ .killed → ∀ r ∈ w.sent,
    r.version ≤ s.delivered w.volume ∨ w.phase = .recording r.version

variable {i : ℕ} {w w' : Watch} {q : WatchPhase}

theorem raiseDelivered_cases (delivered : String → Int64) (volume u : String) (version : Int64) :
    raiseDelivered delivered volume version u = delivered u ∨
      u = volume ∧ raiseDelivered delivered volume version u = version := by
  unfold raiseDelivered
  split
  · by_cases hu : u = volume
    · exact .inr ⟨hu, by simp [hu]⟩
    · exact .inl (Function.update_of_ne hu _ _)
  · exact .inl rfl

theorem le_raiseDelivered (delivered : String → Int64) (volume u : String) (version : Int64) :
    delivered u ≤ raiseDelivered delivered volume version u := by
  unfold raiseDelivered
  split
  · next hlt =>
    by_cases hu : u = volume
    · subst hu
      simpa using Int64.le_of_lt hlt
    · simp [Function.update_of_ne hu]
  · exact Int64.le_refl _

theorem version_le_raiseDelivered (delivered : String → Int64) (volume : String) (version : Int64) :
    version ≤ raiseDelivered delivered volume version volume := by
  unfold raiseDelivered
  split
  · simp
  · next hlt => exact Int64.not_lt.1 hlt

theorem Marked.le (h : Marked s) (hi : s.watches[i]? = some w) (hq : w.phase = q) (hk : q ≠ .killed)
    (hr : ∀ v, q ≠ .recording v) : ∀ r ∈ w.sent, r.version ≤ s.delivered w.volume := by
  intro r hmem
  rcases h.recorded w (List.mem_of_getElem? hi) (hq ▸ hk) r hmem with hle | heq
  · exact hle
  · exact absurd (hq ▸ heq) (hr _)

theorem Marked.putWatch (h : Marked s) (hmono : ∀ u, s.Sent u (s.delivered u) →
      (s.putWatch i w').Sent u (s.delivered u))
    (hw : ∀ r ∈ w'.sent, r.version ≤ s.delivered w'.volume ∨ w'.phase = .recording r.version) :
    Marked (s.putWatch i w') where
  sent u := (h.sent u).imp id (hmono u)
  recorded x hx hk := by
    rcases List.mem_or_eq_of_mem_set hx with hx | rfl
    · exact h.recorded x hx hk
    · exact hw

theorem Marked.addWatch {volume : String} (h : Marked s) : Marked (s.addWatch (.start volume q)) where
  sent u := by
    refine (h.sent u).imp id ?_
    rintro ⟨x, hx, hu⟩
    exact ⟨x, List.mem_append_left _ hx, hu⟩
  recorded x hx hk r hr := by
    rcases List.mem_append.1 hx with hx | hx
    · exact h.recorded x hx hk r hr
    · rw [List.mem_singleton.1 hx] at hr
      exact absurd hr List.not_mem_nil

theorem Marked.watchStep (h : Marked s) (hf : ∀ w ∈ s.watches, w.Faithful)
    (hstep : WatchStep cfg s e s') : Marked s' := by
  have hsent : ∀ u v, s.Sent u v → s'.Sent u v := fun u v => hstep.sent_mono
  have hmono : ∀ u, s.Sent u (s.delivered u) → s'.Sent u (s.delivered u) := fun u => hsent u _
  cases hstep with
  | notFound | exhausted => exact h.addWatch
  | admitted volume =>
    have hadd : Marked (s.addWatch (.start volume .admitted)) := h.addWatch
    exact ⟨hadd.sent, hadd.recorded⟩
  | registered i w hi hq =>
    have hput := h.putWatch hmono fun r hr => .inl (h.le hi hq nofun nofun r hr)
    exact ⟨hput.sent, hput.recorded⟩
  | refused _ _ hi hq | cursorRead _ _ _ _ hi hq | cursorUnavailable _ _ hi hq | dropped _ _ r hi hq =>
    exact h.putWatch hmono fun r hr => .inl (h.le hi hq nofun nofun r hr)
  | sent i w r hi hq _ =>
    refine h.putWatch hmono fun x hx => ?_
    rcases List.mem_append.1 hx with hx | hx
    · exact .inl (h.le hi hq nofun nofun x hx)
    · exact .inr (by rw [List.mem_singleton.1 hx])
  | sendFailed i w r st hi hq =>
    exact h.putWatch hmono fun r hr => .inl (h.le hi hq nofun nofun r hr)
  | recorded i w version hi hq _ =>
    have hw := List.mem_of_getElem? hi
    -- the raised mark is the version this very call has sent
    have hversion : s.Sent w.volume version :=
      ⟨w, hw, rfl, (hf w hw).recording version hq⟩
    refine ⟨fun u => ?_, fun x hx hk r hr => ?_⟩
    · rcases raiseDelivered_cases s.delivered w.volume u version with he | ⟨rfl, he⟩
      · exact (h.sent u).imp he.trans fun hs => by simpa only [he] using hmono u hs
      · exact .inr (by simpa only [he] using hsent _ _ hversion)
    · rcases List.mem_or_eq_of_mem_set hx with hx | rfl
      · exact (h.recorded x hx hk r hr).imp_left
          fun hle => Int64.le_trans hle (le_raiseDelivered s.delivered w.volume x.volume version)
      · left
        rcases h.recorded w hw (by simp [hq]) r hr with hle | heq
        · exact Int64.le_trans hle (le_raiseDelivered s.delivered w.volume w.volume version)
        · obtain rfl : version = r.version := WatchPhase.recording.inj (hq.symm.trans heq)
          exact version_le_raiseDelivered s.delivered w.volume r.version
  | scanEnded i w st hi hq =>
    exact h.putWatch hmono fun r hr => .inl (h.le hi hq nofun nofun r hr)
  | deregistered i w st hi hq =>
    have hput := h.putWatch hmono fun r hr => .inl (h.le hi hq nofun nofun r hr)
    exact ⟨hput.sent, hput.recorded⟩
  | released i w st hi hq =>
    have hput := h.putWatch hmono fun r hr => .inl (h.le hi hq nofun nofun r hr)
    exact ⟨hput.sent, hput.recorded⟩

theorem Marked.of_eq (h : Marked s) (hwatches : s'.watches = s.watches)
    (hdelivered : s'.delivered = s.delivered) : Marked s' where
  sent u := by
    rw [hdelivered]
    exact (h.sent u).imp id fun ⟨w, hw, hx⟩ => ⟨w, hwatches ▸ hw, hx⟩
  recorded := by
    rw [hwatches, hdelivered]
    exact h.recorded

theorem Marked.restart (d : Disk) : Marked (s.restart d) where
  sent _ := .inl rfl
  recorded w hw hk := by
    obtain ⟨x, -, rfl⟩ := List.mem_map.1 hw
    exact absurd rfl hk

end Delivery

/-! ## §4 — the cursors -/

/-- The version is one the volume started with or one below a version that was sent. -/
def Server.Bounded (start : String → Int64) (s : Server) (u : String) (v : Int64) : Prop :=
  v ≤ start u ∨ ∃ x, s.Sent u x ∧ v ≤ x

def Server.Committing (s : Server) (u : String) (v : Int64) : Prop :=
  ∃ a p, s.ack = some a ∧ a.phase = .committing p ∧ a.volume = u ∧ a.version = v

/-- **The cursors are sound**: every volume's files hold a cell that no version outruns, the version in
the locked Ack call was sent, and a commit in progress has done what its phase says. -/
structure CursorsSound (start : String → Int64) (s : Server) : Prop where
  cell : ∀ u, safeVolume u = true → ∃ c, CursorIs s.disk u c ∧ s.Bounded start u c.view
  acked : ∀ a, s.ack = some a → 0 < a.version ∧ s.Bounded start a.volume a.version
  prepared : ∀ a p, s.ack = some a → a.phase = .committing p →
    safeVolume a.volume = true ∧ Prepared s.disk a.version p ∧
      ∀ c, CursorIs s.disk a.volume c → p.Stands a.version c

def CellsMove (s s' : Server) : Prop :=
  ∀ u c, safeVolume u = true → CursorIs s.disk u c →
    ∃ c', CursorIs s'.disk u c' ∧ CellStep (s.Committing u) c c'

section Cursors

variable {cfg : AgentConfig} {s s' : Server} {e : Event} {start : String → Int64} {a : AckCall}

theorem WatchStep.frame (h : WatchStep cfg s e s') : s'.disk = s.disk ∧ s'.ack = s.ack := by
  cases h <;> exact ⟨rfl, rfl⟩

theorem AckStep.frame (h : AckStep cfg s e s') :
    s'.watches = s.watches ∧ s'.slots = s.slots ∧ s'.active = s.active ∧ s'.delivered = s.delivered := by
  cases h <;> exact ⟨rfl, rfl, rfl, rfl⟩

theorem CellsMove.of_disk (h : s'.disk = s.disk) : CellsMove s s' :=
  fun _ c _ hc => ⟨c, h ▸ hc, .stay c⟩

theorem CursorsSound.cell_of_move (h : CursorsSound start s) (hmove : CellsMove s s')
    (hsent : ∀ u v, s.Sent u v → s'.Sent u v) :
    ∀ u, safeVolume u = true → ∃ c, CursorIs s'.disk u c ∧ s'.Bounded start u c.view := by
  intro u hu
  obtain ⟨c, hc, hview⟩ := h.cell u hu
  obtain ⟨c', hc', hstep⟩ := hmove u c hu hc
  have hmono : ∀ v, s.Bounded start u v → s'.Bounded start u v :=
    fun v hv => hv.imp id fun ⟨x, hx, hle⟩ => ⟨x, hsent u x hx, hle⟩
  have hdurable : s.Bounded start u c.durable := by
    rcases hview with hle | ⟨x, hx, hle⟩
    · exact .inl (Int64.le_trans hc.le hle)
    · exact .inr ⟨x, hx, Int64.le_trans hc.le hle⟩
  have hattempt : ∀ v, s.Committing u v → s.Bounded start u v := by
    rintro v ⟨a, p, ha, -, rfl, rfl⟩
    exact (h.acked a ha).2
  exact ⟨c', hc', hmono _ (hstep.preserves hattempt hview hdurable).1⟩

theorem CursorsSound.watchStep (h : CursorsSound start s) (hstep : WatchStep cfg s e s') :
    CursorsSound start s' ∧ CellsMove s s' := by
  obtain ⟨hdisk, hack⟩ := hstep.frame
  have hmove : CellsMove s s' := .of_disk hdisk
  refine ⟨⟨h.cell_of_move hmove fun u v => hstep.sent_mono, fun a ha => ?_, fun a p ha hp => ?_⟩, hmove⟩
  · obtain ⟨hpos, hb⟩ := h.acked a (hack ▸ ha)
    exact ⟨hpos, hb.imp id fun ⟨x, hx, hle⟩ => ⟨x, hstep.sent_mono hx, hle⟩⟩
  · rw [hdisk]
    exact h.prepared a p (hack ▸ ha) hp

theorem CursorsSound.setAck (h : CursorsSound start s) (ha : 0 < a.version ∧ s.Bounded start a.volume a.version)
    (hphase : ∀ p, a.phase ≠ .committing p) : CursorsSound start { s with ack := some a } where
  cell := h.cell
  acked b hb := by
    obtain rfl : a = b := Option.some.inj hb
    exact ha
  prepared b p hb hp := by
    obtain rfl : a = b := Option.some.inj hb
    exact absurd hp (hphase p)

theorem CursorsSound.ackStep (h : CursorsSound start s) (hm : Marked s) (hstep : AckStep cfg s e s') :
    CursorsSound start s' ∧ CellsMove s s' := by
  cases hstep with
  | notFound | notPositive | notDelivered => exact ⟨h, .of_disk rfl⟩
  | entered id volume version _ hpos _ hle =>
    refine ⟨h.setAck ⟨hpos, ?_⟩ nofun, .of_disk rfl⟩
    rcases hm.sent volume with hzero | hsent
    · exact absurd hle (by grind)
    · exact .inr ⟨_, hsent, hle⟩
  | writing a ha hphase hchecks =>
    obtain ⟨hpos, hsafe, current, hread, hle, hdiffers⟩ := commitChecks_ok hchecks
    refine ⟨⟨h.cell, fun b hb => ?_, fun b p hb hp => ?_⟩, .of_disk rfl⟩
    · obtain rfl := Option.some.inj hb
      exact h.acked a ha
    · obtain rfl := Option.some.inj hb
      obtain rfl : CommitPhase.create = p := AckPhase.committing.inj hp
      refine ⟨hsafe, trivial, fun c hc => ?_⟩
      have hview : c.view = current := Except.ok.inj (hc.read.symm.trans hread)
      have hne : a.version ≠ current := by simpa using hdiffers.symm
      show c.view < a.version
      grind
  | unchanged a ha | refused a _ ha =>
    exact ⟨h.setAck (h.acked a ha) nofun, .of_disk rfl⟩
  | commit a p p' d ha hphase hcommit =>
    obtain ⟨hpos, hb⟩ := h.acked a ha
    obtain ⟨hsafe, hprep, hstands⟩ := h.prepared a p ha hphase
    have hmove : ∀ u c, safeVolume u = true → CursorIs s.disk u c → ∃ c', CursorIs d u c' ∧
        CellStep (fun v => u = a.volume ∧ v = a.version) c c' ∧ (u = a.volume → p'.Stands a.version c') :=
      fun u c hu hc => hcommit.cell hprep hsafe hpos hu hc fun he => hstands c (he ▸ hc)
    have hcells : CellsMove s { s with disk := d, ack := some { a with phase := .committing p' } } := by
      intro u c hu hc
      obtain ⟨c', hc', hcell, -⟩ := hmove u c hu hc
      exact ⟨c', hc', hcell.mono fun v ⟨hv, hv'⟩ => ⟨a, p, ha, hphase, hv.symm, hv'.symm⟩⟩
    refine ⟨⟨h.cell_of_move hcells fun _ _ => id, fun b hab => ?_, fun b q hab hq => ?_⟩, hcells⟩
    · obtain rfl := Option.some.inj hab
      exact ⟨hpos, hb⟩
    · obtain rfl := Option.some.inj hab
      obtain rfl : p' = q := AckPhase.committing.inj hq
      refine ⟨hsafe, hcommit.prepared hprep, fun c' hc' => ?_⟩
      obtain ⟨c, hc, -⟩ := h.cell a.volume hsafe
      obtain ⟨x, hx, -, hst⟩ := hmove a.volume c hsafe hc
      exact hc'.unique hx ▸ hst rfl
  | committed a result ha => exact ⟨h.setAck (h.acked a ha) nofun, .of_disk rfl⟩
  | answered =>
    exact ⟨⟨h.cell, nofun, nofun⟩, .of_disk rfl⟩

theorem CursorsSound.restart {d : Disk} (h : CursorsSound start s)
    (hmove : CellsMove s (s.restart d)) : CursorsSound start (s.restart d) :=
  ⟨h.cell_of_move hmove fun _ _ => Sent.restart, nofun, nofun⟩

theorem CursorsSound.machineStep (h : CursorsSound start s) (hstep : MachineStep s e s') :
    CursorsSound start s' ∧ CellsMove s s' := by
  cases hstep with
  | writeback d hw =>
    have hmove : CellsMove s { s with disk := d } := by
      intro u c _ hc
      rcases hc.writeback hw with hc' | hc'
      · exact ⟨c, hc', .stay c⟩
      · exact ⟨⟨c.view, c.view⟩, hc', .store c⟩
    refine ⟨⟨h.cell_of_move hmove fun _ _ => id, h.acked, fun a p ha hp => ?_⟩, hmove⟩
    obtain ⟨hsafe, hprep, hstands⟩ := h.prepared a p ha hp
    refine ⟨hsafe, hprep.writeback hw, fun c' hc' => ?_⟩
    obtain ⟨c, hc, -⟩ := h.cell a.volume hsafe
    rcases hc.writeback hw with hsame | hstored
    · exact hsame.unique hc' ▸ hstands c hc
    · exact hstored.unique hc' ▸ (hstands c hc).store rfl hc.le
  | processCrash =>
    have hmove : CellsMove s (s.restart s.disk) := .of_disk rfl
    exact ⟨h.restart hmove, hmove⟩
  | hostCrash d hcrash =>
    have hmove : CellsMove s (s.restart d) := fun u c _ hc => ⟨_, hc.crash hcrash, .fallBack c⟩
    exact ⟨h.restart hmove, hmove⟩

end Cursors

/-! ## §5 — every run -/

def Watch.Serves (cfg : AgentConfig) (w : Watch) : Prop :=
  0 ≤ w.after ∧ (cfg.sources w.volume = true ∨ w.sent = [] ∧ w.holdsSlot = false)

structure Booted (start : String → Int64) (s : Server) : Prop where
  cursors : ∀ u, safeVolume u = true → CursorIs s.disk u ⟨start u, start u⟩
  slots : s.slots = 0
  active : ∀ u, s.active u = false
  delivered : ∀ u, s.delivered u = 0
  watches : s.watches = []
  ack : s.ack = none

/-- **What holds of the agent at every moment.** -/
structure Inv (cfg : AgentConfig) (start : String → Int64) (s : Server) : Prop where
  counted : Counted cfg s
  faithful : ∀ w ∈ s.watches, w.Faithful
  serves : ∀ w ∈ s.watches, w.Serves cfg
  marked : Marked s
  cursors : CursorsSound start s

section Run

variable {cfg : AgentConfig} {s s' s₀ : Server} {e : Event} {start : String → Int64}

theorem Watch.Serves.sources {w : Watch} (h : w.Serves cfg) (hslot : w.holdsSlot = true) :
    cfg.sources w.volume = true := by
  rcases h.2 with hc | ⟨-, hn⟩
  · exact hc
  · exact absurd hslot (by simp [hn])

theorem WatchStep.serves (hstep : WatchStep cfg s e s') (h : ∀ w ∈ s.watches, w.Serves cfg) :
    ∀ w ∈ s'.watches, w.Serves cfg := by
  have hadd : ∀ w, w.Serves cfg → ∀ x ∈ (s.addWatch w).watches, x.Serves cfg := by
    intro w hw x hx
    rcases List.mem_append.1 hx with hx | hx
    · exact h x hx
    · exact List.mem_singleton.1 hx ▸ hw
  have hput : ∀ (i : ℕ) (w w' : Watch) (q : WatchPhase), s.watches[i]? = some w → w.phase = q → q.holdsSlot = true →
      w'.volume = w.volume → 0 ≤ w'.after → ∀ x ∈ (s.putWatch i w').watches, x.Serves cfg := by
    intro i w w' q hi hq hslot hvol hafter x hx
    rcases List.mem_or_eq_of_mem_set hx with hx | rfl
    · exact h x hx
    · have hw := h w (List.mem_of_getElem? hi)
      exact ⟨hafter, .inl (hvol ▸ hw.sources (by rw [Watch.holdsSlot, hq, hslot]))⟩
  have hold : ∀ (i : ℕ) (w : Watch), s.watches[i]? = some w → 0 ≤ w.after :=
    fun i w hi => (h w (List.mem_of_getElem? hi)).1
  cases hstep with
  | notFound volume _ => exact hadd _ ⟨Int64.le_refl _, .inr ⟨rfl, rfl⟩⟩
  | exhausted _ hc | admitted _ hc => exact hadd _ ⟨Int64.le_refl _, .inl hc⟩
  | registered i w hi hq | refused i w hi hq => exact hput i w _ _ hi hq rfl rfl (hold i w hi)
  | cursorRead i w name after hi hq _ _ hread =>
    exact hput i w _ _ hi hq rfl rfl (nonneg_of_parseCursor hread)
  | cursorUnavailable i w hi hq | dropped i w _ hi hq | sent i w _ hi hq | sendFailed i w _ _ hi hq
  | recorded i w _ hi hq | scanEnded i w _ hi hq | deregistered i w _ hi hq | released i w _ hi hq =>
    exact hput i w _ _ hi hq rfl rfl (hold i w hi)

theorem Booted.inv (h : Booted start s) : Inv cfg start s where
  counted := ⟨by simp [h.slots, h.watches], by simp [h.slots], fun u => by simp [h.watches, h.active]⟩
  faithful := by simp [h.watches]
  serves := by simp [h.watches]
  marked := ⟨fun u => .inl (h.delivered u), by simp [h.watches]⟩
  cursors :=
    ⟨fun u hu => ⟨_, h.cursors u hu, .inl (Int64.le_refl _)⟩, by simp [h.ack], by simp [h.ack]⟩

theorem Inv.restart (h : Inv cfg start s) {d : Disk} (hc : CursorsSound start (s.restart d)) :
    Inv cfg start (s.restart d) where
  counted := .restart d
  faithful w hw := by
    obtain ⟨x, hx, rfl⟩ := List.mem_map.1 hw
    exact (h.faithful x hx).phase nofun nofun nofun
  serves w hw := by
    obtain ⟨x, hx, rfl⟩ := List.mem_map.1 hw
    have hs := h.serves x hx
    exact ⟨hs.1, hs.2.imp id fun hn => ⟨hn.1, rfl⟩⟩
  marked := .restart d
  cursors := hc

/-- **One step keeps the invariant and moves each cursor as a cell may move.** -/
theorem Inv.step (h : Inv cfg start s) (hstep : Step cfg s e s') : Inv cfg start s' ∧ CellsMove s s' := by
  cases hstep with
  | watch hw =>
    obtain ⟨hc, hmove⟩ := h.cursors.watchStep hw
    exact ⟨⟨h.counted.watchStep hw, hw.faithful h.faithful, hw.serves h.serves,
      h.marked.watchStep h.faithful hw, hc⟩, hmove⟩
  | ack ha =>
    obtain ⟨hc, hmove⟩ := h.cursors.ackStep h.marked ha
    obtain ⟨hwatches, hslots, hactive, hdelivered⟩ := ha.frame
    exact ⟨⟨h.counted.of_eq hwatches hslots hactive, hwatches ▸ h.faithful, hwatches ▸ h.serves,
      h.marked.of_eq hwatches hdelivered, hc⟩, hmove⟩
  | machine hm =>
    obtain ⟨hc, hmove⟩ := h.cursors.machineStep hm
    cases hm with
    | writeback =>
      exact ⟨⟨h.counted.of_eq rfl rfl rfl, h.faithful, h.serves, h.marked.of_eq rfl rfl, hc⟩, hmove⟩
    | processCrash | hostCrash => exact ⟨h.restart hc, hmove⟩

theorem Inv.runs (h : Inv cfg start s₀) (hrun : Runs cfg s₀ s) : Inv cfg start s := by
  induction hrun with
  | refl => exact h
  | tail _ hstep ih =>
    obtain ⟨e, he⟩ := hstep
    exact (ih.step he).1

end Run

end Robinhood.Agent
