/-
# Daemon.Supervisor — the JuiceFS runtime of the daemon

`rbh-daemon/src/lib.rs`: a task for each JuiceFS filesystem scans a baseline if there is none, connects to
the changelog agent, scans once more while the agent buffers, and runs the ingest loop until it exits.  The
stored baseline state is all that a crash leaves to the next run.  The main result says what a stored
`Ready` means: every write of it was preceded, since the last clearing of the catalog, by a finished scan,
and, since the last batch, by a passed verification and one more quiet period.
-/
import Mathlib
import Robinhood.Daemon.Ingest
import Robinhood.JuiceFs.Live

namespace Robinhood.Daemon

open Lib Store Scan Ingest ChangeSource

variable (rt : Runtime)

/-! ## §1 — The baseline scan -/

/-- The loop of `run_juicefs_baseline` over the walker's events. -/
def persistWalk (observedAt : Int) : List PosixWalkEvent → DaemonProg (Except (Option BaselineError) Unit)
  | [] => pure (.ok ())
  | .entry entry :: events =>
    (Prog.perform .update (storeEntry rt.filesystem observedAt entry)).andThen fun _ =>
      persistWalk observedAt events
  | .error path error :: _ =>
    (storeBaseline .store .invalid none (some error)).andThen fun _ =>
      pure (.error (some (.bail ("JuiceFS baseline scan failed at " ++ path ++ ": " ++ error))))

/-- The end of `run_juicefs_baseline`: what the walk counted decides the state. -/
def finishBaseline (errors : ℕ) : DaemonProg (Except (Option BaselineError) Unit) :=
  if errors ≠ 0 then
    (storeBaseline .store .invalid none (some "POSIX scan errors")).andThen fun _ =>
      pure (.error (some (.bail
        ("JuiceFS baseline scan completed with " ++ toString errors ++ " errors"))))
  else do
    Prog.mark .scanFinished
    storeBaseline .store .catchingUp none none

/-- **`run_juicefs_baseline`.** -/
def scanBaseline : DaemonProg (Except (Option BaselineError) Unit) :=
  (storeBaseline .store .scanning none none).andThen fun _ =>
    (Prog.perform .clear (clearScopedCatalog.mapError BaselineError.store)).andThen fun _ => do
      let walk ← answerTo .walk
      let observedAt ← answerTo .clock
      (persistWalk rt observedAt walk.1).andThen fun _ => finishBaseline walk.2

/-! ## §2 — The supervisor -/

/-- Where the task is between two turns: at the head of its loop, inside `ingest_loop`, or at its end. -/
inductive Phase where
  | top
  | ingest (state : IngestState)
  | ended
deriving DecidableEq

def needsScan : Option FilesystemBaseline → Bool
  | none => true
  | some baseline => baseline.state = .invalid || baseline.state = .scanning

/-- The wait at the end of the loop. -/
def pause : DaemonProg Phase := do
  if ← answerTo .cancelled then pure .ended else pure .top

def connected : DaemonProg Phase := do
  let baseline ← readBaseline
  if ((baseline.toOption.bind id).map FilesystemBaseline.state) = some .catchingUp then
    match ← scanBaseline rt with
    | .error _ => pure .top
    | .ok () => Phase.ingest <$> ingestStart
  else Phase.ingest <$> ingestStart

/-- `JuiceFsChangeSource::connect` and what follows. -/
def connect : DaemonProg Phase := do
  match ← answerTo .connect with
  | .ok () => connected rt
  | .error (.retentionGap reason) =>
    let _ ← storeBaseline id .invalid none (some reason)
    pure .top
  | .error _ => pause

def supervise : DaemonProg Phase := do
  if ← answerTo .cancelled then pure .ended
  else
    match ← readBaseline with
    | .error _ => pure .top
    | .ok baseline =>
      if needsScan baseline then
        match ← scanBaseline rt with
        | .error _ => pure .top
        | .ok () => connect rt
      else connect rt

def afterTurn : TurnEnd → DaemonProg Phase
  | .goOn state => pure (.ingest state)
  | .panicked => pure .ended
  | .exit .stopped => pause
  | .exit (.retentionGap reason) => do
    let _ ← storeBaseline id .invalid none (some reason)
    pure .top
  | .exit (.baselineInvalid _) => pure .top

/-- **The runtime of one JuiceFS filesystem.** -/
def supervisor : Service Catalog StoreCall Mark Answer Phase where
  turn
    | .top => supervise rt
    | .ingest state => ingestTurn rt state >>= afterTurn
    | .ended => pure .ended
  start := .top

/-! ## §3 — What happened since -/

namespace DaemonEvent

def isClear : DaemonEvent → Bool
  | .did .clear _ => true
  | _ => false

/-- A batch was received, or `ingest_loop` was entered. -/
def isBoundary : DaemonEvent → Bool
  | .answered (.receive _) ⟨.batch _, _⟩ => true
  | .noted .ingestStarted => true
  | _ => false

def isQuiet : DaemonEvent → Bool
  | .answered (.receive _) ⟨.quiescent, _⟩ => true
  | _ => false

end DaemonEvent

def sinceClear (trace : List DaemonEvent) : List DaemonEvent := trace.takeWhile fun e => !e.isClear

def sinceBatch (trace : List DaemonEvent) : List DaemonEvent := trace.takeWhile fun e => !e.isBoundary

def ScanFinished (trace : List DaemonEvent) : Prop := .noted .scanFinished ∈ sinceClear trace

def Verified (trace : List DaemonEvent) : Prop := .noted .verified ∈ sinceBatch trace

def VerifiedThenQuiet (trace : List DaemonEvent) : Prop :=
  ∃ later quiet earlier, sinceBatch trace = later ++ quiet :: earlier ∧ DaemonEvent.isQuiet quiet ∧
    .noted .verified ∈ earlier

/-- **What the daemon may do after `trace`.**  It writes `Ready` only after a finished scan and a
verification with one more quiet period, and clears only where `Scanning` is stored. -/
def Allowed (trace : List DaemonEvent) : DaemonEvent → Prop
  | .did (.setBaseline .ready) _ => ScanFinished trace ∧ VerifiedThenQuiet trace
  | .did .clear before => before.baseline.map FilesystemBaseline.state = some .scanning
  | _ => True

/-- Everything that happened was allowed when it happened. -/
def Justified : List DaemonEvent → Prop
  | [] => True
  | event :: trace => Allowed trace event ∧ Justified trace

theorem Justified.allowed {event : DaemonEvent} {trace whole : List DaemonEvent}
    (h : Justified whole) (hsuffix : (event :: trace) <:+ whole) : Allowed trace event := by
  induction whole with
  | nil => exact absurd (List.suffix_nil.1 hsuffix) (by simp)
  | cons e rest ih =>
    rcases List.suffix_cons_iff.1 hsuffix with heq | hrest
    · cases heq
      exact h.1
    · exact ih h.2 hrest

/-! ## §4 — The invariant -/

def ScanStored (c : Catalog) : Prop :=
  c.baseline.map FilesystemBaseline.state = some .catchingUp ∨
    c.baseline.map FilesystemBaseline.state = some .ready

/-- **What holds wherever the daemon may crash**: a stored state that says so means a finished scan. -/
def Sound (c : Catalog) (trace : List DaemonEvent) : Prop :=
  (ScanStored c → ScanFinished trace) ∧ Justified trace

/-- An event that is allowed at any time, and after which "since the last clearing" and "since the last
batch" go further back. -/
def Inert : DaemonEvent → Prop
  | .did (.setBaseline .ready) _ => False
  | .did .clear _ => False
  | .answered (.receive _) ⟨.batch _, _⟩ => False
  | .noted .ingestStarted => False
  | _ => True

section Inert

variable {e : DaemonEvent} {c c' : Catalog} {t t' : List DaemonEvent}

theorem Inert.isClear (h : Inert e) : e.isClear = false := by
  unfold DaemonEvent.isClear
  split
  · exact h.elim
  · rfl

theorem Inert.isBoundary (h : Inert e) : e.isBoundary = false := by
  unfold DaemonEvent.isBoundary
  split
  · exact h.elim
  · exact h.elim
  · rfl

theorem Inert.allowed (h : Inert e) : Allowed t e := by
  unfold Allowed
  split
  · exact h.elim
  · exact h.elim
  · trivial

theorem sinceClear_cons (h : e.isClear = false) : sinceClear (e :: t) = e :: sinceClear t := by
  simp [sinceClear, h]

theorem sinceBatch_cons (h : e.isBoundary = false) : sinceBatch (e :: t) = e :: sinceBatch t := by
  simp [sinceBatch, h]

theorem ScanFinished.cons (h : ScanFinished t) (he : e.isClear = false) : ScanFinished (e :: t) := by
  unfold ScanFinished
  rw [sinceClear_cons he]
  exact List.mem_cons_of_mem _ h

theorem Verified.cons (h : Verified t) (he : e.isBoundary = false) : Verified (e :: t) := by
  unfold Verified
  rw [sinceBatch_cons he]
  exact List.mem_cons_of_mem _ h

/-- What was known after `t` is known after `t'`. -/
def Kept (t t' : List DaemonEvent) : Prop :=
  (ScanFinished t → ScanFinished t') ∧ (Verified t → Verified t')

theorem Kept.refl (t : List DaemonEvent) : Kept t t := ⟨id, id⟩

theorem Kept.trans {t'' : List DaemonEvent} (h : Kept t t') (h' : Kept t' t'') : Kept t t'' :=
  ⟨h'.1 ∘ h.1, h'.2 ∘ h.2⟩

theorem Kept.push (h : Kept t t') (hclear : e.isClear = false) (hboundary : e.isBoundary = false) :
    Kept t (e :: t') :=
  ⟨fun hs => (h.1 hs).cons hclear, fun hv => (h.2 hv).cons hboundary⟩

theorem Kept.cons (h : Kept t t') (he : Inert e) : Kept t (e :: t') := h.push he.isClear he.isBoundary

theorem Sound.cons (h : Sound c t) (he : Inert e) : Sound c (e :: t) :=
  ⟨fun hc => (h.1 hc).cons he.isClear, he.allowed, h.2⟩

theorem Sound.move (h : Sound c t) (he : Inert e) (hscan : ScanStored c' → ScanFinished t) :
    Sound c' (e :: t) :=
  ⟨fun hc => (hscan hc).cons he.isClear, he.allowed, h.2⟩

end Inert

/-! ## §5 — The calls -/

section Calls

variable {c : Catalog} {t : List DaemonEvent} {ε α β : Type}

theorem holds_pure {a : α} {post : α → Catalog → List DaemonEvent → Prop} (hs : Sound c t)
    (h : post a c t) : Prog.Holds Sound post (pure a : DaemonProg α) c t := ⟨hs, h⟩

theorem holds_answerTo {q : Question} {post : Answer q → Catalog → List DaemonEvent → Prop}
    (hs : Sound c t) (hq : ∀ a, Inert (.answered q a)) (h : ∀ a, post a c (.answered q a :: t)) :
    Prog.Holds Sound post (answerTo q) c t :=
  ⟨hs, fun a => ⟨hs.cons (hq a), h a⟩⟩

theorem scanStored_withBaseline {state : BaselineState} {lastVersion : Option UInt64}
    {reason : Option String} {now : Int}
    (h : ScanStored (c.withBaseline state lastVersion reason now)) :
    state = .catchingUp ∨ state = .ready := by
  simpa [ScanStored, Catalog.withBaseline] using h

/-- **A write of a state other than `Ready`.** -/
theorem holds_storeBaseline {h : StoreError → ε} {state : BaselineState} {lastVersion : Option UInt64}
    {reason : Option String} (hs : Sound c t) (hready : state ≠ .ready)
    (hscan : state = .catchingUp → ScanFinished t) :
    Prog.Holds Sound (fun r c' t' => Kept t t' ∧
        (r = .ok () → c'.baseline.map FilesystemBaseline.state = some state))
      (storeBaseline h state lastVersion reason) c t := by
  refine Prog.Holds.bind (holds_answerTo hs (fun _ => trivial) fun now => ?_)
  have hclock : Sound c (.answered .clock now :: t) := hs.cons trivial
  have hdid : Inert (.did (.setBaseline state) c) := by
    cases state with
    | ready => exact absurd rfl hready
    | _ => trivial
  have hfailed : Inert (.failed (.setBaseline state)) := trivial
  have hmoved : Sound (c.withBaseline state lastVersion reason now)
      (.did (.setBaseline state) c :: .answered .clock now :: t) := by
    refine hclock.move hdid fun hstored => ?_
    obtain hcatch | hr := scanStored_withBaseline hstored
    · exact (hscan hcatch).cons rfl
    · exact absurd hr hready
  have hkept : Kept t (.answered .clock now :: t) := (Kept.refl t).cons trivial
  rw [setBaselineState, Prog.perform_write]
  refine ⟨hclock, ⟨hmoved, hkept.cons hdid, fun _ => rfl⟩, ⟨hmoved, hkept.cons hdid, ?_⟩,
    hclock.cons hfailed, hkept.cons hfailed, ?_⟩
  · rintro ⟨⟩
  · rintro ⟨⟩

theorem holds_readBaseline (hs : Sound c t) :
    Prog.Holds Sound (fun r c' t' => Kept t t' ∧ c' = c ∧ ∀ b, r = .ok b → b = c.baseline)
      readBaseline c t := by
  have hkept := Kept.refl t
  rw [readBaseline, getBaseline, Prog.perform_read]
  refine ⟨hs, ⟨hs.cons trivial, hkept.cons trivial, rfl, ?_⟩,
    ⟨hs.cons trivial, hkept.cons trivial, rfl, ?_⟩, hs.cons trivial, hkept.cons trivial, rfl, ?_⟩
  · rintro b ⟨⟩
    rfl
  · exact fun b hb => nomatch hb
  · exact fun b hb => nomatch hb

theorem holds_update {call : StoreCall} (hcall : call = .update ∨ call = .listEdges) {p : Proc Catalog ε α}
    (hp : p.Each Executable) (hs : Sound c t) :
    Prog.Holds Sound (fun _ c' t' => Kept t t' ∧ c'.baseline = c.baseline)
      (Prog.perform call p) c t := by
  have hinert (c : Catalog) : Inert (.did call c) := by
    obtain rfl | rfl := hcall <;> trivial
  have hstored {c c' : Catalog} (h : c'.baseline = c.baseline) : ScanStored c' ↔ ScanStored c := by
    rw [ScanStored, ScanStored, h]
  refine (Prog.holds_perform (fun _ _ h => h.1) (fun c' t' h => ?_) (fun f c' t' hf h => ?_) hp
    (P := fun c' t' => Sound c' t' ∧ Kept t t' ∧ c'.baseline = c.baseline)
    ⟨hs, Kept.refl t, rfl⟩).imp fun _ _ _ _ h => h.2
  · exact ⟨h.1.cons trivial, h.2.1.cons trivial, h.2.2⟩
  · refine ⟨h.1.move (hinert c') fun hc => h.1.1 ((hstored (hf c').1).1 hc), h.2.1.cons (hinert c'), ?_⟩
    exact (hf c').1.trans h.2.2

/-- Only soundness is known of what follows. -/
def Anything {γ : Type} (_ : γ) (_ : Catalog) (_ : List DaemonEvent) : Prop := True

theorem holds_storeBaseline_then {h : StoreError → ε} {state : BaselineState}
    {lastVersion : Option UInt64} {reason : Option String} {f : Except (Option ε) Unit → DaemonProg β}
    {post : β → Catalog → List DaemonEvent → Prop} (hs : Sound c t) (hready : state ≠ .ready)
    (hscan : state = .catchingUp → ScanFinished t)
    (hf : ∀ r c' t', Sound c' t' → Kept t t' → Prog.Holds Sound post (f r) c' t') :
    Prog.Holds Sound post (storeBaseline h state lastVersion reason >>= f) c t :=
  Prog.Holds.bind ((holds_storeBaseline hs hready hscan).imp fun r c' t' hs' h =>
    hf r c' t' hs' h.1)

end Calls

/-! ## §6 — The scan -/

section Scan

variable {rt} {c : Catalog} {t : List DaemonEvent}

theorem holds_persistWalk (observedAt : Int) (events : List PosixWalkEvent) (hs : Sound c t) :
    Prog.Holds Sound Anything (persistWalk rt observedAt events) c t := by
  induction events generalizing c t with
  | nil => exact holds_pure hs trivial
  | cons event events ih =>
    cases event with
    | entry =>
      refine Prog.Holds.andThen ((holds_update (.inl rfl) (each_storeEntry _ _ _) hs).imp
        fun r c' t' hs' _ => ?_)
      cases r with
      | ok => exact ih hs'
      | error => trivial
    | error path error =>
      refine Prog.Holds.andThen ((holds_storeBaseline hs (by simp) (by simp)).imp
        fun r c' t' hs' _ => ?_)
      cases r with
      | ok => exact holds_pure hs' trivial
      | error => trivial

/-- **A scan that counted no error** is what `CatchingUp` stands for. -/
theorem holds_finishBaseline (errors : ℕ) (hs : Sound c t) :
    Prog.Holds Sound Anything (finishBaseline errors) c t := by
  unfold finishBaseline
  split_ifs
  · refine Prog.Holds.andThen ((holds_storeBaseline hs (by simp) (by simp)).imp
      fun r c' t' hs' _ => ?_)
    cases r with
    | ok => exact holds_pure hs' trivial
    | error => trivial
  · have hfinished : ScanFinished (.noted .scanFinished :: t) := by
      unfold ScanFinished
      rw [sinceClear_cons rfl]
      exact List.mem_cons_self
    have hs' : Sound c (.noted .scanFinished :: t) := hs.cons trivial
    refine ⟨hs, ?_⟩
    exact (holds_storeBaseline hs' (by simp) fun _ => hfinished).imp fun _ _ _ _ _ => trivial

/-- **The clearing is allowed**: `Scanning` was stored just before it. -/
theorem holds_clear {ε : Type} {h : StoreError → ε} (hs : Sound c t)
    (hscanning : c.baseline.map FilesystemBaseline.state = some .scanning) :
    Prog.Holds Sound Anything (Prog.perform .clear (clearScopedCatalog.mapError h)) c t := by
  have hcleared : Sound c.cleared (.did .clear c :: t) := by
    refine ⟨fun hstored => ?_, hscanning, hs.2⟩
    have hstate : c.cleared.baseline.map FilesystemBaseline.state = some .scanning := hscanning
    rw [ScanStored, hstate] at hstored
    simp at hstored
  rw [clearScopedCatalog, Prog.perform_write]
  exact ⟨hs, ⟨hcleared, trivial⟩, ⟨hcleared, trivial⟩, hs.cons trivial, trivial⟩

theorem holds_scanBaseline (hs : Sound c t) : Prog.Holds Sound Anything (scanBaseline rt) c t := by
  refine Prog.Holds.andThen ((holds_storeBaseline hs (by simp) (by simp)).imp
    fun r c' t' hs' hstored => ?_)
  cases r with
  | error => trivial
  | ok _ =>
    refine Prog.Holds.andThen ((holds_clear hs' (hstored.2 rfl)).imp fun r c' t' hs' _ => ?_)
    cases r with
    | error => trivial
    | ok _ =>
      refine Prog.Holds.bind (holds_answerTo hs' (fun _ => trivial) fun walk => ?_)
      have hwalk : Sound c' (.answered .walk walk :: t') := hs'.cons trivial
      refine Prog.Holds.bind (holds_answerTo hwalk (fun _ => trivial) fun now => ?_)
      have hnow : Sound c' (.answered .clock now :: .answered .walk walk :: t') := hwalk.cons trivial
      refine Prog.Holds.andThen ((holds_persistWalk now walk.1 hnow).imp fun r c' t' hs' _ => ?_)
      cases r with
      | ok => exact holds_finishBaseline walk.2 hs'
      | error => trivial

end Scan

/-! ## §7 — The ingest loop -/

section Ingest

variable {rt} {c : Catalog} {t : List DaemonEvent}

/-- **What the local variables of `ingest_loop` stand for.** -/
def IngestSound (state : IngestState) (trace : List DaemonEvent) : Prop :=
  (state.catchingUp = true → ScanFinished trace) ∧ (state.verifiedQuiescent = true → Verified trace)

def TurnSound : TurnEnd → Catalog → List DaemonEvent → Prop
  | .goOn state, _, trace => IngestSound state trace
  | _, _, _ => True

/-- Nothing that was known is lost. -/
def Keeps {γ : Type} (t : List DaemonEvent) (_ : γ) (_ : Catalog) (t' : List DaemonEvent) : Prop :=
  Kept t t'

theorem holds_classifyTouched (fid : LuFid) (hs : Sound c t) :
    Prog.Holds Sound (Keeps t) (classifyTouched rt fid) c t := by
  refine Prog.Holds.bind (holds_answerTo hs (fun _ => trivial) fun classifiers => ?_)
  have hs' : Sound c (.answered .classifiers classifiers :: t) := hs.cons trivial
  have hkept : Kept t (.answered .classifiers classifiers :: t) := (Kept.refl t).cons trivial
  split_ifs
  · exact holds_pure hs' hkept
  · refine Prog.Holds.bind ((holds_update (.inl rfl) (each_getLustreEntry _ _) hs').imp
      fun r c' t' hs' h => ?_)
    have hkept := hkept.trans h.1
    rcases r with e | _ | row
    · exact holds_pure hs' hkept
    · exact holds_pure hs' hkept
    · refine Prog.Holds.bind ((holds_update (.inl rfl) (each_applyClassifiers _ _ _ _) hs').imp
        fun r c' t' hs' h => ?_)
      have hkept := hkept.trans h.1
      split
      · exact holds_pure hs' hkept
      · exact holds_pure hs' hkept
      · exact holds_pure hs' hkept

theorem holds_applyChange (change : Change) (hs : Sound c t) :
    Prog.Holds Sound (Keeps t) (applyChange rt change) c t := by
  refine Prog.Holds.bind (holds_answerTo hs (fun _ => trivial) fun live => ?_)
  have hs' : Sound c (.answered .mount live :: t) := hs.cons trivial
  have hkept : Kept t (.answered .mount live :: t) := (Kept.refl t).cons trivial
  split_ifs
  · refine Prog.Holds.bind ((holds_update (.inl rfl) (each_applyJuicefsChange _ _ _ _) hs').imp
      fun r c' t' hs' h => ?_)
    have hkept := hkept.trans h.1
    cases r with
    | ok | error => exact holds_pure hs' hkept
  · split
    · exact holds_pure hs' hkept
    · refine Prog.Holds.bind (holds_answerTo hs' (fun _ => trivial) fun clock => ?_)
      have hkept := hkept.cons (e := .answered .eventClock clock) trivial
      have hclock := hs'.cons (e := .answered .eventClock clock) trivial
      refine Prog.Holds.bind ((holds_update (.inl rfl) (each_applyEvent _ _ _ _ _) hclock).imp
        fun r c' t' hs' h => ?_)
      have hkept := hkept.trans h.1
      rcases r with e | _ | _
      · exact holds_pure hs' hkept
      · exact holds_pure hs' hkept
      · exact (holds_classifyTouched _ hs').imp fun _ _ _ _ h => hkept.trans h

theorem holds_applyChanges (changes : List Change) (hs : Sound c t) :
    Prog.Holds Sound (Keeps t) (applyChanges rt changes) c t := by
  induction changes generalizing c t with
  | nil => exact holds_pure hs (Kept.refl t)
  | cons change changes ih =>
    refine Prog.Holds.bind ((holds_applyChange change hs).imp fun r c' t' hs' hkept => ?_)
    cases r with
    | fine => exact (ih hs').imp fun _ _ _ _ h => Kept.trans hkept h
    | counted =>
      exact Prog.Holds.bind ((ih hs').imp fun _ _ _ hs'' h => holds_pure hs'' (Kept.trans hkept h))
    | broken | panicked => exact holds_pure hs' hkept

theorem holds_ingestBatch {state : IngestState} (batch : ChangeBatch) (hs : Sound c t)
    (hscan : state.catchingUp = true → ScanFinished t) (hverified : state.verifiedQuiescent = false) :
    Prog.Holds Sound TurnSound (ingestBatch rt state batch) c t := by
  unfold ingestBatch
  split_ifs
  · exact holds_pure hs trivial
  · refine Prog.Holds.bind ((holds_applyChanges _ hs).imp fun r c' t' hs' hkept => ?_)
    split
    · exact holds_pure hs' trivial
    · refine Prog.Holds.bind (holds_answerTo hs' (fun _ => trivial) fun answer => ?_)
      cases answer with
      | error => exact holds_pure (hs'.cons trivial) trivial
      | ok _ =>
        refine holds_pure (hs'.cons trivial) ⟨fun hcatching => ?_, fun hv => ?_⟩
        · exact (hkept.1 (hscan hcatching)).cons rfl
        · exact absurd (hverified.symm.trans hv) (by simp)
    · exact holds_pure hs' trivial

theorem holds_verifyJuicefsNamespace (hs : Sound c t) :
    Prog.Holds Sound (Keeps t) (verifyJuicefsNamespace rt) c t := by
  refine Prog.Holds.bind (holds_answerTo hs (fun _ => trivial) fun walk => ?_)
  have hs' : Sound c (.answered .walk walk :: t) := hs.cons trivial
  have hkept : Kept t (.answered .walk walk :: t) := (Kept.refl t).cons trivial
  split
  · exact holds_pure hs' hkept
  · refine Prog.Holds.bind ((holds_update (.inr rfl) (Proc.each_read executable_id _) hs').imp
      fun r c' t' hs' h => ?_)
    cases r with
    | error | ok => exact holds_pure hs' (hkept.trans h.1)

/-- **The write of `Ready`**: verified since the last batch, and now a quiet period. -/
theorem holds_publish {lastVersion : Option UInt64} {reason : Option String} {quiet : DaemonEvent}
    (hs : Sound c (quiet :: t)) (hscan : ScanFinished (quiet :: t)) (hverified : Verified t)
    (hquiet : quiet.isQuiet = true) (hinert : Inert quiet) :
    Prog.Holds Sound (Keeps (quiet :: t)) (storeBaseline id .ready lastVersion reason) c
      (quiet :: t) := by
  refine Prog.Holds.bind (holds_answerTo hs (fun _ => trivial) fun now => ?_)
  have hclock : Sound c (.answered .clock now :: quiet :: t) := hs.cons trivial
  have hscan' : ScanFinished (.answered .clock now :: quiet :: t) := hscan.cons rfl
  have hthen : VerifiedThenQuiet (.answered .clock now :: quiet :: t) := by
    refine ⟨[.answered .clock now], quiet, sinceBatch t, ?_, hquiet, hverified⟩
    rw [sinceBatch_cons rfl, sinceBatch_cons hinert.isBoundary]
    rfl
  have hdid : Sound (c.withBaseline .ready lastVersion reason now)
      (.did (.setBaseline .ready) c :: .answered .clock now :: quiet :: t) :=
    ⟨fun _ => hscan'.cons rfl, ⟨hscan', hthen⟩, hclock.2⟩
  have hkept : Kept (quiet :: t) (.answered .clock now :: quiet :: t) := (Kept.refl _).cons trivial
  have hkept' := hkept.push (e := .did (.setBaseline .ready) c) rfl rfl
  rw [setBaselineState, Prog.perform_write]
  exact ⟨hclock, ⟨hdid, hkept'⟩, ⟨hdid, hkept'⟩, hclock.cons trivial, hkept.cons trivial⟩

theorem holds_ingestQuiescent {state : IngestState} {quiet : DaemonEvent} (hs : Sound c t)
    (hstate : IngestSound state t) (hcatching : state.catchingUp = true)
    (hquiet : quiet.isQuiet = true) (hinert : Inert quiet) :
    Prog.Holds Sound TurnSound (ingestQuiescent rt state) c (quiet :: t) := by
  have hscan : ScanFinished (quiet :: t) := (hstate.1 hcatching).cons hinert.isClear
  unfold ingestQuiescent
  cases hv : state.verifiedQuiescent with
  | false =>
    refine Prog.Holds.bind ((holds_verifyJuicefsNamespace (hs.cons hinert)).imp
      fun r c' t' hs' hkept => ?_)
    cases r with
    | error =>
      exact holds_storeBaseline_then hs' (by simp) (by simp) fun _ _ _ hs'' _ =>
        holds_pure hs'' trivial
    | ok _ =>
      have hmarked : Sound c' (.noted .verified :: t') := hs'.cons trivial
      refine ⟨hs', hmarked, fun _ => (hkept.1 hscan).cons rfl, fun _ => ?_⟩
      unfold Verified
      rw [sinceBatch_cons rfl]
      exact List.mem_cons_self
  | true =>
    refine Prog.Holds.bind ((holds_publish (hs.cons hinert) hscan (hstate.2 hv) hquiet hinert).imp
      fun r c' t' hs' hkept => ?_)
    cases r with
    | error => exact holds_pure hs' trivial
    | ok _ =>
      refine holds_pure hs' ⟨fun h => absurd h (by simp), fun _ => ?_⟩
      exact hkept.2 ((hstate.2 hv).cons hinert.isBoundary)

/-- **One turn of `ingest_loop`** keeps what its variables stand for. -/
theorem holds_ingestTurn {state : IngestState} (hs : Sound c t) (hstate : IngestSound state t) :
    Prog.Holds Sound TurnSound (ingestTurn rt state) c t := by
  refine ⟨hs, fun received => ?_⟩
  obtain ⟨received, hwaits⟩ := received
  cases received with
  | batch batch =>
    have hs' : Sound c (.answered (.receive state.catchingUp) ⟨.batch batch, hwaits⟩ :: t) :=
      ⟨fun hc => (hs.1 hc).cons rfl, trivial, hs.2⟩
    exact holds_ingestBatch batch hs' (fun h => (hstate.1 h).cons rfl) rfl
  | closed => exact holds_pure (hs.cons trivial) trivial
  | failed error =>
    have hs' : Sound c (.answered (.receive state.catchingUp) ⟨.failed error, hwaits⟩ :: t) :=
      hs.cons trivial
    cases error with
    | retentionGap | _ => exact holds_pure hs' trivial
  | cancelled => exact holds_pure (hs.cons trivial) trivial
  | quiescent => exact holds_ingestQuiescent hs hstate (hwaits rfl) rfl trivial

theorem holds_ingestStart (hs : Sound c t) :
    Prog.Holds Sound (fun state _ t' => IngestSound state t') ingestStart c t := by
  have hs' : Sound c (.noted .ingestStarted :: t) := ⟨fun hc => (hs.1 hc).cons rfl, trivial, hs.2⟩
  refine ⟨hs, ?_⟩
  show Prog.Holds Sound _ (readBaseline >>= _) c _
  refine Prog.Holds.bind ((holds_readBaseline hs').imp fun r c' t' hs'' h => ?_)
  obtain ⟨-, rfl, hread⟩ := h
  refine holds_pure hs'' ⟨fun hcatching => hs''.1 (.inl ?_), fun h => absurd h (by simp)⟩
  cases r with
  | error => exact absurd hcatching (by simp [Except.toOption])
  | ok b =>
    rw [← hread b rfl]
    simpa [Except.toOption] using hcatching

end Ingest

/-! ## §8 — Whole runs -/

section Runs

variable {rt} {c : Catalog} {t : List DaemonEvent}

/-- What holds between two turns. -/
def PhaseSound : Phase → Catalog → List DaemonEvent → Prop
  | .ingest state, _, trace => IngestSound state trace
  | _, _, _ => True

theorem holds_pause (hs : Sound c t) : Prog.Holds Sound PhaseSound pause c t := by
  refine Prog.Holds.bind (holds_answerTo hs (fun _ => trivial) fun cancelled => ?_)
  split_ifs
  · exact holds_pure (hs.cons trivial) trivial
  · exact holds_pure (hs.cons trivial) trivial

theorem holds_startIngest (hs : Sound c t) :
    Prog.Holds Sound PhaseSound (Phase.ingest <$> ingestStart) c t :=
  Prog.Holds.bind ((holds_ingestStart hs).imp fun _ _ _ hs' h => holds_pure hs' h)

theorem holds_connected (hs : Sound c t) : Prog.Holds Sound PhaseSound (connected rt) c t := by
  refine Prog.Holds.bind ((holds_readBaseline hs).imp fun r c' t' hs' _ => ?_)
  split_ifs
  · refine Prog.Holds.bind ((holds_scanBaseline hs').imp fun r c' t' hs' _ => ?_)
    cases r with
    | error => exact holds_pure hs' trivial
    | ok => exact holds_startIngest hs'
  · exact holds_startIngest hs'

theorem holds_connect (hs : Sound c t) : Prog.Holds Sound PhaseSound (connect rt) c t := by
  refine Prog.Holds.bind (holds_answerTo hs (fun _ => trivial) fun answer => ?_)
  have hs' : Sound c (.answered .connect answer :: t) := hs.cons trivial
  rcases answer with error | _
  · cases error with
    | retentionGap =>
      exact holds_storeBaseline_then hs' (by simp) (by simp) fun _ _ _ hs'' _ =>
        holds_pure hs'' trivial
    | _ => exact holds_pause hs'
  · exact holds_connected hs'

theorem holds_supervise (hs : Sound c t) : Prog.Holds Sound PhaseSound (supervise rt) c t := by
  refine Prog.Holds.bind (holds_answerTo hs (fun _ => trivial) fun cancelled => ?_)
  have hs' : Sound c (.answered .cancelled cancelled :: t) := hs.cons trivial
  split_ifs
  · exact holds_pure hs' trivial
  · refine Prog.Holds.bind ((holds_readBaseline hs').imp fun r c' t' hs' _ => ?_)
    cases r with
    | error => exact holds_pure hs' trivial
    | ok =>
      show Prog.Holds Sound PhaseSound (if _ then _ else _) c' t'
      split_ifs
      · refine Prog.Holds.bind ((holds_scanBaseline hs').imp fun r c' t' hs' _ => ?_)
        cases r with
        | error => exact holds_pure hs' trivial
        | ok => exact holds_connect hs'
      · exact holds_connect hs'

theorem holds_afterTurn {ended : TurnEnd} (hs : Sound c t) (h : TurnSound ended c t) :
    Prog.Holds Sound PhaseSound (afterTurn ended) c t := by
  cases ended with
  | goOn => exact holds_pure hs h
  | panicked => exact holds_pure hs trivial
  | exit how =>
    cases how with
    | stopped => exact holds_pause hs
    | retentionGap =>
      exact holds_storeBaseline_then hs (by simp) (by simp) fun _ _ _ hs' _ => holds_pure hs' trivial
    | baselineInvalid => exact holds_pure hs trivial

theorem holds_turn (phase : Phase) (hs : Sound c t) (h : PhaseSound phase c t) :
    ((supervisor rt).turn phase).Holds Sound PhaseSound c t := by
  cases phase with
  | top => exact holds_supervise hs
  | ingest =>
    exact Prog.Holds.bind ((holds_ingestTurn hs h).imp fun ended c' t' hs' h' =>
      holds_afterTurn hs' h')
  | ended => exact holds_pure hs trivial

/-- **Every reachable configuration is sound.** -/
theorem sound_of_reaches {w : Service.Config Catalog StoreCall Mark Answer Phase}
    (h0 : ¬ ScanStored c) (hw : (supervisor rt).Reaches c w) : Sound w.store w.trace :=
  (Service.holds_of_reaches (v := supervisor rt) (fun _ _ hs => Sound.cons hs trivial)
    (fun _ _ _ => (trivial : PhaseSound .top _ _)) (fun phase _ _ => holds_turn phase)
    ⟨fun h => absurd h h0, trivial⟩ hw).crash

/-- **`Ready` means verified.**  In every run of the runtime from a store whose baseline is not already
said to be scanned, with crashes and failing calls anywhere: whenever `Ready` is written, a scan finished
without an error since the last clearing of the catalog, and since the last batch of this ingest loop the
namespace was verified and afterwards a quiet period passed; and whenever the catalog is cleared,
`Scanning` is what is stored. -/
theorem ready_means_verified {w : Service.Config Catalog StoreCall Mark Answer Phase}
    (h0 : ¬ ScanStored c) (hw : (supervisor rt).Reaches c w) :
    (∀ before trace, (.did (.setBaseline .ready) before :: trace) <:+ w.trace →
      ScanFinished trace ∧ VerifiedThenQuiet trace) ∧
    ∀ before trace, (.did .clear before :: trace) <:+ w.trace →
      before.baseline.map FilesystemBaseline.state = some .scanning := by
  obtain ⟨-, hjustified⟩ := sound_of_reaches h0 hw
  exact ⟨fun _ _ h => hjustified.allowed h, fun _ _ h => hjustified.allowed h⟩

end Runs

/-! ## §9 — Undisturbed -/

section Undisturbed

variable {rt} (answers : ∀ q, Answer q)

def PlaysAs {ε α : Type} (p : DaemonProg (Except (Option ε) α)) (q : Proc Catalog ε α) : Prop :=
  ∀ c t, (p.play answers c t).1 = (q.run c).1.mapError some ∧
    (p.play answers c t).2.1 = (q.run c).2

variable {answers}

theorem playsAs_storeBaseline {ε : Type} (h : StoreError → ε) (state : BaselineState)
    (lastVersion : Option UInt64) (reason : Option String) :
    PlaysAs answers (storeBaseline h state lastVersion reason)
      ((setBaselineState state lastVersion reason (answers .clock)).mapError h) :=
  fun _ _ => Prog.play_perform answers _ _ _ _

theorem playsAs_persistWalk (observedAt : Int) (events : List PosixWalkEvent) :
    PlaysAs answers (persistWalk rt observedAt events)
      (storeWalk rt.filesystem observedAt (answers .clock) events) := by
  induction events with
  | nil => exact fun _ _ => ⟨rfl, rfl⟩
  | cons event events ih =>
    intro c t
    cases event with
    | entry =>
      exact Prog.play_andThen answers (Prog.play_perform answers _ _ _ _) fun _ => ih
    | error =>
      exact Prog.play_andThen answers (playsAs_storeBaseline _ _ _ _ _ _) fun _ _ _ => ⟨rfl, rfl⟩

/-- **Where nothing fails, a scan is `run_juicefs_baseline`** as it acts on the catalog. -/
theorem playsAs_scanBaseline :
    PlaysAs answers (scanBaseline rt)
      (runJuicefsBaseline rt.filesystem (answers .walk).1 (answers .walk).2 (answers .clock)
        (answers .clock)) := by
  intro c t
  refine Prog.play_andThen answers (playsAs_storeBaseline _ _ _ _ _ _) fun _ c t => ?_
  refine Prog.play_andThen answers (Prog.play_perform answers _ _ _ _) fun _ c t => ?_
  refine Prog.play_andThen (f := fun _ => finishBaseline (answers .walk).2) answers
    (playsAs_persistWalk _ _ _ _) fun _ c t => ?_
  unfold finishBaseline
  split_ifs
  · exact Prog.play_andThen answers (playsAs_storeBaseline _ _ _ _ _ _) fun _ _ _ => ⟨rfl, rfl⟩
  · exact playsAs_storeBaseline _ _ _ _ _ _

end Undisturbed

namespace Sample

def runtime : Runtime where
  filesystem := JuiceFs.Sample.jfs
  mountPath := JuiceFs.Sample.mountPath
  describe _ := "store"
  lib := Policy.Sample.ascii

def twoEntries : List PosixWalkEvent :=
  [.entry ⟨[], .directory, 1, none, 0, 0, 0, 0, 0, 1, 0, 0, 0, 0⟩,
    .entry ⟨JuiceFs.Sample.a, .file, 10, some 1, 0, 0, 0, 0, 0, 1, 0, 0, 0, 1⟩]

/-- The mount has two entries, and nothing happens in it. -/
def quietWorld : ∀ q, Answer q
  | .walk => (twoEntries, 0)
  | .receive true => ⟨.quiescent, fun _ => rfl⟩
  | q => quietAnswers q

def afterTurns : ℕ → Phase × Catalog × List DaemonEvent
  | 0 => (.top, JuiceFs.Sample.registered, [])
  | n + 1 =>
    let w := afterTurns n
    ((supervisor runtime).turn w.1).play quietWorld w.2.1 w.2.2

theorem reaches_afterTurns (n : ℕ) :
    (supervisor runtime).Reaches JuiceFs.Sample.registered
      ⟨.ret (afterTurns n).1, (afterTurns n).2.1, (afterTurns n).2.2⟩ := by
  induction n with
  | zero => exact .refl
  | succ n ih => exact ih.play quietWorld

/-- `Ready` was written. -/
def isPublished : DaemonEvent → Bool
  | .did (.setBaseline .ready) _ => true
  | _ => false

theorem exists_published {trace : List DaemonEvent} (h : trace.head?.any isPublished = true) :
    ∃ before earlier, trace = .did (.setBaseline .ready) before :: earlier := by
  rcases trace with _ | ⟨event, earlier⟩
  · cases h
  · change isPublished event = true at h
    unfold isPublished at h
    split at h
    · next before => exact ⟨before, earlier, rfl⟩
    · cases h

end Sample

/-- The runtime of a quiet mount scans twice, verifies, waits and publishes. -/
theorem quiet_mount_ready :
    ∃ before trace, (.did (.setBaseline .ready) before :: trace) <:+ (Sample.afterTurns 3).2.2 ∧
      ScanFinished trace ∧ VerifiedThenQuiet trace := by
  have hpublished : (Sample.afterTurns 3).2.2.head?.any Sample.isPublished = true := by decide +kernel
  obtain ⟨before, trace, h⟩ := Sample.exists_published hpublished
  have hsuffix : (.did (.setBaseline .ready) before :: trace) <:+ (Sample.afterTurns 3).2.2 :=
    h ▸ List.suffix_refl _
  exact ⟨before, trace, hsuffix, (ready_means_verified (by simp [ScanStored, JuiceFs.Sample.registered])
    (Sample.reaches_afterTurns 3)).1 before trace hsuffix⟩

end Robinhood.Daemon
