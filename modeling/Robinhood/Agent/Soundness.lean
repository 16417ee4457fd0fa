/-
# Agent.Soundness — the agent against any client

Whatever the clients call and whenever the agent or its host crashes, a volume's cursor on the disk is
readable, never goes back and never outruns what was sent.  What a client may rely on less is the answer
to an Ack: a version is sent before it is marked as delivered, so an Ack that comes in between is
rejected.
-/
import Mathlib
import Robinhood.Agent.Server

namespace Robinhood.Agent

open Lib Relation

section Run

variable {cfg : AgentConfig} {s s₀ : Server} {start : String → Int64}

/-- **The cursors are sound against any client.**  At every moment a volume's cursor is readable, now
and after a crash; the durable one is not above every version sent, and a step leaves it or raises it
to the one that is read.  A volume has at most one active Watch, all together hold at most `maxStreams`
slots, and each has sent what it scanned above the cursor it read. -/
theorem cursors_sound (hboot : Booted start s₀) (hrun : Runs cfg s₀ s) :
    (∀ u, safeVolume u = true → ∃ view durable,
      readCursor s.disk (cursorName u) = .ok view ∧ keptCursor s.disk (cursorName u) = .ok durable ∧
      s.Bounded start u durable ∧
      ∀ e s', Step cfg s e s' → ∃ view' durable',
        readCursor s'.disk (cursorName u) = .ok view' ∧
        keptCursor s'.disk (cursorName u) = .ok durable' ∧ durable ≤ durable' ∧
        (durable' = durable ∨ durable' = view) ∧
        (view' = view ∨ view' = durable ∨ s.Committing u view')) ∧
    (∀ u, s.watches.countP (Watch.activeOn u) ≤ 1) ∧
    s.watches.countP Watch.holdsSlot ≤ cfg.maxStreams ∧
    ∀ w ∈ s.watches, w.sent ++ w.failed.toList = w.scanned.filter fun r => w.after < r.version := by
  have hinv : Inv cfg start s := hboot.inv.runs hrun
  refine ⟨fun u hu => ?_, fun u => ?_, ?_, fun w hw => (hinv.faithful w hw).filtered⟩
  · obtain ⟨c, hc, hview⟩ := hinv.cursors.cell u hu
    have hdurable : s.Bounded start u c.durable := by
      rcases hview with hle | ⟨x, hx, hle⟩
      · exact .inl (Int64.le_trans hc.le hle)
      · exact .inr ⟨x, hx, Int64.le_trans hc.le hle⟩
    refine ⟨c.view, c.durable, hc.read, hc.kept, hdurable, fun e s' hstep => ?_⟩
    obtain ⟨c', hc', hcell⟩ := (hinv.step hstep).2 u c hu hc
    obtain ⟨hnew, hold⟩ := hcell.old_or_new
    exact ⟨c'.view, c'.durable, hc'.read, hc'.kept, hcell.durable_le_durable hc.le, hold, hnew⟩
  · rw [hinv.counted.active u]
    exact Bool.toNat_le _
  · rw [← hinv.counted.slots]
    exact hinv.counted.bound

/-- **When a version that was sent is not accepted.**  An Ack for a version this process has sent is
rejected as not delivered exactly while the Watch that sent it has not raised the mark yet. -/
theorem ack_rejected_iff (hboot : Booted start s₀) (hrun : Runs cfg s₀ s) {w : Watch} {r : Scanned}
    (hw : w ∈ s.watches) (hlive : w.phase ≠ .killed) (hr : r ∈ w.sent) :
    (∃ id status s', Step cfg s (.rejected id w.volume r.version status) s' ∧
      status.code = .failedPrecondition) ↔
    w.phase = .recording r.version ∧ s.delivered w.volume < r.version ∧ s.MuFree := by
  have hinv : Inv cfg start s := hboot.inv.runs hrun
  constructor
  · rintro ⟨id, status, s', hstep, hcode⟩
    cases hstep with
    | watch h => cases h
    | machine h => cases h
    | ack h =>
      cases h with
      | notFound => exact absurd hcode (by decide)
      | notPositive => exact absurd hcode (by decide)
      | notDelivered _ _ _ _ _ hfree hlt =>
        rcases hinv.marked.recorded w hw hlive r hr with hle | hq
        · exact absurd hlt (Int64.not_lt.2 hle)
        · exact ⟨hq, hlt, hfree⟩
  · rintro ⟨-, hlt, hfree⟩
    have hserves := hinv.serves w hw
    have hsources : cfg.sources w.volume = true := by
      rcases hserves.2 with hc | ⟨hnil, -⟩
      · exact hc
      · exact absurd hr (by simp [hnil])
    have habove : w.after < r.version := by
      have hmem := (hinv.faithful w hw).filtered ▸ List.mem_append_left _ hr
      simpa using (List.mem_filter.1 hmem).2
    have hpos : 0 < r.version := by
      have := hserves.1
      grind
    exact ⟨0, _, s, .ack (.notDelivered s 0 w.volume r.version hsources hpos hfree hlt), rfl⟩

end Run

/-! ## A volume's first record -/

namespace Sample

/-- One volume and one stream. -/
def cfg : AgentConfig := ⟨fun u => u == "vol", 1⟩

/-- The agent before its first call, with an empty cursor directory. -/
def fresh : Server where
  disk := ⟨fun _ => none, fun _ => none, fun _ => ⟨"", true⟩⟩
  slots := 0
  active _ := false
  delivered _ := 0
  watches := []
  ack := none

def record : Scanned := ⟨1, "1.0|CREATE"⟩

/-- A Watch of the volume that has sent the first record and has not marked it yet. -/
def sending : Server where
  disk := fresh.disk
  slots := 1
  active := Function.update fresh.active "vol" true
  delivered _ := 0
  watches := [⟨"vol", .recording 1, 0, [record], [record], none⟩]
  ack := none

def marked : Server :=
  { sending with
    delivered := raiseDelivered (fun _ => 0) "vol" 1
    watches := [⟨"vol", .scanning, 0, [record], [record], none⟩] }

theorem fresh_booted : Booted (fun _ => 0) fresh where
  cursors _ _ := ⟨by simp [DurableDir.Settled, fresh], rfl, rfl, Int64.le_refl _⟩
  slots := rfl
  active _ := rfl
  delivered _ := rfl
  watches := rfl
  ack := rfl

theorem runs_sending : Runs cfg fresh sending := by
  have hadmitted : WatchStep cfg fresh _ _ := .admitted fresh "vol" rfl (by decide)
  have hregistered : WatchStep cfg { fresh.addWatch (.start "vol" .admitted) with slots := 1 } _ _ :=
    .registered _ 0 (.start "vol" .admitted) rfl rfl rfl rfl
  have hread : WatchStep cfg
      { fresh.addWatch (.start "vol" .registered) with
        slots := 1, active := Function.update fresh.active "vol" true } _ _ :=
    .cursorRead _ 0 (.start "vol" .registered) (cursorName "vol") 0 rfl rfl (by decide) nofun rfl
  have hsent : WatchStep cfg
      { fresh.addWatch (.start "vol" .scanning) with
        slots := 1, active := Function.update fresh.active "vol" true } _ _ :=
    .sent _ 0 (.start "vol" .scanning) record rfl rfl (by decide)
  exact .head ⟨_, .watch hadmitted⟩ (.head ⟨_, .watch hregistered⟩ (.head ⟨_, .watch hread⟩
    (.single ⟨_, .watch hsent⟩)))

theorem runs_marked : Runs cfg fresh marked :=
  runs_sending.tail ⟨_, .watch (.recorded sending 0 _ 1 rfl rfl rfl)⟩

def committing (d : Disk) (p : CommitPhase) : Server :=
  { marked with disk := d, ack := some ⟨7, "vol", 1, .committing p⟩ }

def written : Disk :=
  ((fresh.disk.create (tempName "1") 0 "").write 0 (formatCursor 1)).sync 0

/-- The server at the moment the new line has been renamed over the cursor and nothing is stored. -/
def renamed : Server :=
  committing (written.rename (tempName "1") (cursorName "vol")) (.openDir (tempName "1"))

theorem runs_renamed : Runs cfg fresh renamed := by
  have hcommit : ∀ {d d' : Disk} {p p' : CommitPhase}, CommitStep "vol" 1 d p d' p' →
      ∃ e, Step cfg (committing d p) e (committing d' p') :=
    fun {d d' p p'} h => ⟨_, .ack (.commit (committing d p) _ p p' d' rfl rfl h)⟩
  have hentered : AckStep cfg marked _ _ := .entered marked 7 "vol" 1 rfl (by decide) rfl (by decide)
  have hwriting : AckStep cfg { marked with ack := some ⟨7, "vol", 1, .checked⟩ } _ _ :=
    .writing _ ⟨7, "vol", 1, .checked⟩ rfl rfl (by decide)
  refine (runs_marked.tail ⟨_, .ack hentered⟩).tail ⟨_, .ack hwriting⟩ |>.trans ?_
  exact .head (hcommit (.created _ "1" 0 rfl fun _ => ⟨nofun, nofun⟩)) <|
    .head (hcommit (.chmodded _ _ _)) <| .head (hcommit (.written _ _ _)) <|
    .head (hcommit (.synced _ _ _)) <| .head (hcommit (.closed _ _ _)) <|
    .single (hcommit (.renamed _ _ _))

/-- In the middle of the commit the new version is read, the old one is durable, and whatever comes next
leaves one of the two. -/
theorem renamed_sound :
    readCursor renamed.disk (cursorName "vol") = .ok 1 ∧
      ∃ view durable, readCursor renamed.disk (cursorName "vol") = .ok view ∧
        keptCursor renamed.disk (cursorName "vol") = .ok durable ∧
        ∀ e s', Step cfg renamed e s' → ∃ durable',
          keptCursor s'.disk (cursorName "vol") = .ok durable' ∧
          (durable' = durable ∨ durable' = view) := by
  refine ⟨by decide +kernel, ?_⟩
  obtain ⟨view, durable, hview, hdurable, -, hnext⟩ :=
    (cursors_sound fresh_booted runs_renamed).1 "vol" (by decide)
  refine ⟨view, durable, hview, hdurable, fun e s' hstep => ?_⟩
  obtain ⟨-, durable', -, hkept, -, hor, -⟩ := hnext e s' hstep
  exact ⟨durable', hkept, hor⟩

/-- The record's Ack is accepted once the Watch has raised the mark. -/
theorem marked_not_rejected :
    ¬ ∃ id status s', Step cfg marked (.rejected id "vol" 1 status) s' ∧
      status.code = .failedPrecondition := by
  have hiff := ack_rejected_iff fresh_booted runs_marked
    (w := ⟨"vol", .scanning, 0, [record], [record], none⟩) (r := record)
    (List.mem_singleton.2 rfl) nofun (List.mem_singleton.2 rfl)
  exact fun h => absurd (hiff.1 h).1 (by decide)

/-- **A record is sent, and its Ack is rejected**: the Ack comes before the Watch has raised the mark. -/
theorem sent_record_rejected :
    Runs cfg fresh sending ∧ sending.Sent "vol" 1 ∧
      ∃ s', Step cfg sending (.rejected 7 "vol" 1 .notDelivered) s' ∧
        Status.notDelivered.code = .failedPrecondition :=
  ⟨runs_sending, ⟨_, List.mem_singleton.2 rfl, rfl, record, List.mem_singleton.2 rfl, rfl⟩, sending,
    .ack (.notDelivered sending 7 "vol" 1 rfl (by decide) rfl (by decide)), rfl⟩

end Sample

end Robinhood.Agent
