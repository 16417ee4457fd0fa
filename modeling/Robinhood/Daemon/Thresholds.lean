/-
# Daemon.Thresholds — when a threshold fires

`ThresholdChecker` (`rbh-daemon/src/thresholds.rs`) goes through the policies of its filesystem once a cycle.
Two maps say when it looks at a threshold: `next_check` is moved on whenever a threshold is due, before
anything is measured, and `last_fired` when a run was scheduled.  What the store, the OSTs and the scheduler
answer is given with each policy; which OST is over its mark, and the target of a threshold, are left out.
-/
import Mathlib

namespace Robinhood.Daemon

/-! ## §1 — The checker -/

/-- The thresholds of `TriggerSpec`. -/
inductive ThresholdTrigger where
  | count (checkIntervalSecs highCount postTriggerWaitSecs : UInt64)
  | volume (checkIntervalSecs highBytes postTriggerWaitSecs : UInt64)
  | ostPct (checkIntervalSecs : UInt64) (highPct : UInt32) (postTriggerWaitSecs : UInt64)
  | fsPct (checkIntervalSecs : UInt64) (highPct : UInt32) (postTriggerWaitSecs : UInt64)

inductive Measure where
  | count (high : UInt64)
  | volume (high : UInt64)
  | ostPct (highPct : UInt32)
  | fsPct (highPct : UInt32)

structure ThresholdParams where
  checkIntervalSecs : UInt64
  postTriggerWaitSecs : UInt64
  measure : Measure

/-- `decode_threshold`. -/
def decodeThreshold : ThresholdTrigger → ThresholdParams
  | .count check high wait => ⟨check, wait, .count high⟩
  | .volume check high wait => ⟨check, wait, .volume high⟩
  | .ostPct check high wait => ⟨check, wait, .ostPct high⟩
  | .fsPct check high wait => ⟨check, wait, .fsPct high⟩

/-- **A policy as a cycle meets it**: its row, what the validations and the parser say of it, and what the
store, the OSTs and the scheduler answer. -/
structure Probe where
  id : UInt64
  enabled : Bool
  ofFilesystem : Bool
  valid : Bool
  /-- the trigger, if it is a threshold -/
  trigger : Option ThresholdTrigger
  targetSupported : Bool
  /-- the count or the sum, if the query succeeds -/
  total : Option UInt64
  /-- whether the usage is over its mark, if it can be read -/
  overUsage : Option Bool
  scheduled : Bool

structure Checker where
  nextCheck : UInt64 → Option UInt64
  lastFired : UInt64 → Option UInt64

namespace Checker

def start : Checker := ⟨fun _ => none, fun _ => none⟩

def due (s : Checker) (id now : UInt64) : Bool := (s.nextCheck id).getD 0 ≤ now

def inCooldown (s : Checker) (id now wait : UInt64) : Bool :=
  (s.lastFired id).any fun last => now < last + wait

end Checker

/-- What a cycle makes of a policy; a query that fails ends the cycle. -/
inductive Outcome where
  | skipped
  | below
  | fireFailed
  | fired
  | aborted
  deriving DecidableEq, Repr

/-- The measured value against its mark: `none` where the query fails. -/
def Measure.read (probe : Probe) : Measure → Option (Option Bool)
  | count high | volume high => probe.total.map fun total => some (decide (high ≤ total))
  | ostPct _ | fsPct _ => some probe.overUsage

/-- **One policy of `one_cycle`.** -/
def check (now : UInt64) (s : Checker) (probe : Probe) : Checker × Outcome :=
  if !probe.enabled || !probe.ofFilesystem || !probe.valid then (s, .skipped)
  else match probe.trigger.map decodeThreshold with
  | none => (s, .skipped)
  | some params =>
    if s.due probe.id now then
      let s := { s with
        nextCheck := Function.update s.nextCheck probe.id (some (now + params.checkIntervalSecs)) }
      if s.inCooldown probe.id now params.postTriggerWaitSecs || !probe.targetSupported then (s, .skipped)
      else match params.measure.read probe with
        | none => (s, .aborted)
        | some none => (s, .skipped)
        | some (some false) => (s, .below)
        | some (some true) =>
          if probe.scheduled then
            ({ s with lastFired := Function.update s.lastFired probe.id (some now) }, .fired)
          else (s, .fireFailed)
    else (s, .skipped)

/-- A policy that was looked at: when, from which maps, and what came of it. -/
structure Visit where
  now : UInt64
  before : Checker
  probe : Probe

namespace Visit

def after (v : Visit) : Checker := (check v.now v.before v.probe).1

def outcome (v : Visit) : Outcome := (check v.now v.before v.probe).2

end Visit

/-- **`one_cycle`** over the policies it lists. -/
def oneCycle (now : UInt64) : Checker → List Probe → Checker × List Visit
  | s, [] => (s, [])
  | s, probe :: probes =>
    let visit : Visit := ⟨now, s, probe⟩
    if visit.outcome = .aborted then (visit.after, [visit])
    else
      let rest := oneCycle now visit.after probes
      (rest.1, visit :: rest.2)

/-- **A run of the checker**: the clock and the policies of each cycle.  A cycle that cannot list the policies,
or does not know its filesystem, is one without policies. -/
def run : Checker → List (UInt64 × List Probe) → List Visit
  | _, [] => []
  | s, (now, probes) :: cycles => (oneCycle now s probes).2 ++ run (oneCycle now s probes).1 cycles

/-! ## §2 — One policy -/

section Policy

variable {id now later : UInt64} {params : ThresholdParams} {s : Checker} {v : Visit}

def Fixed (id : UInt64) (params : ThresholdParams) (probe : Probe) : Prop :=
  probe.id = id → ∀ trigger, probe.trigger = some trigger → decodeThreshold trigger = params

def InRange (params : ThresholdParams) (now : UInt64) : Prop :=
  now.toNat + params.checkIntervalSecs.toNat < 2 ^ 64 ∧ now.toNat + params.postTriggerWaitSecs.toNat < 2 ^ 64

def Ready (id : UInt64) (params : ThresholdParams) (s : Checker) (now : UInt64) : Prop :=
  s.due id now = true ∧ s.inCooldown id now params.postTriggerWaitSecs = false

/-- **The measured value reaches the high mark.** -/
def Reaches (params : ThresholdParams) (probe : Probe) : Prop :=
  match params.measure with
  | .count high | .volume high => ∃ total, probe.total = some total ∧ high ≤ total
  | .ostPct _ | .fsPct _ => probe.overUsage = some true

theorem read_eq_true {probe : Probe} :
    params.measure.read probe = some (some true) ↔ Reaches params probe := by
  unfold Reaches Measure.read
  cases params.measure <;> simp

def Checker.moved (s : Checker) (id now : UInt64) (params : ThresholdParams) : Checker :=
  { s with nextCheck := Function.update s.nextCheck id (some (now + params.checkIntervalSecs)) }

/-- **What a visit can do**: nothing; move the next check on; or fire, where the policy is ready and its value
reaches the mark. -/
theorem check_cases (now : UInt64) (s : Checker) (probe : Probe) :
    check now s probe = (s, .skipped) ∨
    ∃ trigger, probe.trigger = some trigger ∧ s.due probe.id now = true ∧
      ((∃ outcome, outcome ≠ .fired ∧
          check now s probe = (s.moved probe.id now (decodeThreshold trigger), outcome)) ∨
        (Ready probe.id (decodeThreshold trigger) s now ∧ Reaches (decodeThreshold trigger) probe ∧
          check now s probe = ({ s.moved probe.id now (decodeThreshold trigger) with
            lastFired := Function.update s.lastFired probe.id (some now) }, .fired))) := by
  unfold check
  split
  · exact .inl rfl
  · cases htrigger : probe.trigger with
    | none => exact .inl rfl
    | some trigger =>
      dsimp only [Option.map_some]
      split
      · next hdue =>
        refine .inr ⟨trigger, rfl, hdue, ?_⟩
        split
        · exact .inl ⟨.skipped, by decide, rfl⟩
        · next hcold =>
          split
          · exact .inl ⟨.aborted, by decide, rfl⟩
          · exact .inl ⟨.skipped, by decide, rfl⟩
          · exact .inl ⟨.below, by decide, rfl⟩
          · next hread =>
            split
            · rw [Bool.or_eq_true, not_or, Bool.not_eq_true] at hcold
              exact .inr ⟨⟨hdue, hcold.1⟩, read_eq_true.1 hread, rfl⟩
            · exact .inl ⟨.fireFailed, by decide, rfl⟩
      · exact .inl rfl

def Visit.Fires (id : UInt64) (v : Visit) : Prop := v.probe.id = id ∧ v.outcome = .fired

instance : DecidablePred (Visit.Fires id) := fun _ => inferInstanceAs (Decidable (_ ∧ _))

theorem Visit.Fires.ready (h : v.Fires id) (hfixed : Fixed id params v.probe) :
    Ready id params v.before v.now ∧ Reaches params v.probe := by
  obtain ⟨rfl, hfired⟩ := h
  unfold Visit.outcome at hfired
  obtain heq | ⟨trigger, htrigger, -, ⟨outcome, hne, heq⟩ | ⟨hready, hreaches, -⟩⟩ :=
    check_cases v.now v.before v.probe
  · simp [heq] at hfired
  · exact absurd hfired (by rw [heq]; exact hne)
  · rw [hfixed rfl trigger htrigger] at hready hreaches
    exact ⟨hready, hreaches⟩

/-- **After a fire** the policy is ready again when both intervals have passed. -/
theorem Visit.Fires.spaced (h : v.Fires id) (hfixed : Fixed id params v.probe) (hrange : InRange params v.now)
    (hready : Ready id params v.after later) :
    v.now.toNat + max params.checkIntervalSecs.toNat params.postTriggerWaitSecs.toNat ≤ later.toNat := by
  obtain ⟨rfl, hfired⟩ := h
  unfold Visit.outcome at hfired
  unfold Visit.after at hready
  obtain heq | ⟨trigger, htrigger, -, ⟨outcome, hne, heq⟩ | ⟨-, -, heq⟩⟩ := check_cases v.now v.before v.probe
  · simp [heq] at hfired
  · exact absurd hfired (by rw [heq]; exact hne)
  · rw [heq, hfixed rfl trigger htrigger] at hready
    obtain ⟨hdue, hcold⟩ := hready
    simp only [Checker.due, Checker.moved, Function.update_self, Option.getD_some, decide_eq_true_eq,
      Checker.inCooldown, Option.any_some, decide_eq_false_iff_not, UInt64.le_iff_toNat_le,
      UInt64.lt_iff_toNat_lt, UInt64.toNat_add, Nat.mod_eq_of_lt hrange.1, Nat.mod_eq_of_lt hrange.2] at hdue hcold
    omega

theorem ready_before (hfixed : Fixed id params v.probe) (hle : v.now ≤ later)
    (hready : Ready id params v.after later) : Ready id params v.before later := by
  unfold Visit.after at hready
  obtain heq | ⟨trigger, htrigger, hdue, hcases⟩ := check_cases v.now v.before v.probe
  · rwa [heq] at hready
  by_cases hid : v.probe.id = id
  · subst hid
    have hdue' : v.before.due v.probe.id later = true := by
      simp only [Checker.due, decide_eq_true_eq] at hdue ⊢
      exact UInt64.le_trans hdue hle
    obtain ⟨outcome, -, heq⟩ | ⟨⟨-, hcold⟩, -, -⟩ := hcases
    · rw [heq] at hready
      exact ⟨hdue', hready.2⟩
    · refine ⟨hdue', ?_⟩
      rw [hfixed rfl trigger htrigger] at hcold
      cases hlast : v.before.lastFired v.probe.id with
      | none => simp [Checker.inCooldown, hlast]
      | some last =>
        simp only [Checker.inCooldown, hlast, Option.any_some, decide_eq_false_iff_not, UInt64.not_lt] at hcold ⊢
        exact UInt64.le_trans hcold hle
  · have hother : ∀ {value : Option UInt64} {f : UInt64 → Option UInt64},
        Function.update f v.probe.id value id = f id := Function.update_of_ne (Ne.symm hid) _ _
    obtain ⟨outcome, -, heq⟩ | ⟨-, -, heq⟩ := hcases <;> rw [heq] at hready <;>
      simpa [Ready, Checker.due, Checker.inCooldown, Checker.moved, hother] using hready

theorem attempts {trigger : ThresholdTrigger} (htrigger : v.probe.trigger = some trigger)
    (hon : v.probe.enabled = true ∧ v.probe.ofFilesystem = true ∧ v.probe.valid = true ∧
      v.probe.targetSupported = true)
    (hready : Ready v.probe.id (decodeThreshold trigger) v.before v.now)
    (hreaches : Reaches (decodeThreshold trigger) v.probe) :
    v.outcome = .fired ∨ v.outcome = .fireFailed := by
  obtain ⟨henabled, hof, hvalid, htarget⟩ := hon
  have hcold : (v.before.moved v.probe.id v.now (decodeThreshold trigger)).inCooldown v.probe.id v.now
      (decodeThreshold trigger).postTriggerWaitSecs = false := hready.2
  unfold Checker.moved at hcold
  simp only [Visit.outcome, check, henabled, hof, hvalid, htarget, htrigger, hready.1, hcold,
    read_eq_true.2 hreaches, Bool.not_true, Bool.or_false, Bool.false_eq_true, if_false, if_true,
    Option.map_some]
  split_ifs
  · exact .inl rfl
  · exact .inr rfl

end Policy

/-! ## §3 — Runs -/

section Runs

variable {id : UInt64} {params : ThresholdParams} {s : Checker} {visits : List Visit}
  {cycles : List (UInt64 × List Probe)}

def Linked : Checker → List Visit → Prop
  | _, [] => True
  | s, v :: visits => v.before = s ∧ Linked v.after visits

theorem linked_oneCycle (now : UInt64) (probes : List Probe) {rest : List Visit}
    (h : Linked (oneCycle now s probes).1 rest) : Linked s ((oneCycle now s probes).2 ++ rest) := by
  induction probes generalizing s with
  | nil => exact h
  | cons probe probes ih =>
    simp only [oneCycle] at h ⊢
    split_ifs at h ⊢
    · exact ⟨rfl, h⟩
    · exact ⟨rfl, ih h⟩

theorem linked_run : Linked s (run s cycles) := by
  induction cycles generalizing s with
  | nil => trivial
  | cons cycle cycles ih => exact linked_oneCycle _ _ ih

theorem mem_oneCycle {now : UInt64} {probes : List Probe} {v : Visit} (h : v ∈ (oneCycle now s probes).2) :
    v.now = now ∧ v.probe ∈ probes := by
  induction probes generalizing s with
  | nil => cases h
  | cons probe probes ih =>
    simp only [oneCycle] at h
    split_ifs at h
    · obtain rfl := List.mem_singleton.1 h
      exact ⟨rfl, List.mem_cons_self⟩
    · obtain rfl | h := List.mem_cons.1 h
      · exact ⟨rfl, List.mem_cons_self⟩
      · exact ⟨(ih h).1, .tail _ (ih h).2⟩

theorem mem_run {v : Visit} (h : v ∈ run s cycles) : ∃ probes, (v.now, probes) ∈ cycles ∧ v.probe ∈ probes := by
  induction cycles generalizing s with
  | nil => cases h
  | cons cycle cycles ih =>
    obtain h | h := List.mem_append.1 h
    · obtain ⟨hnow, hprobe⟩ := mem_oneCycle h
      exact ⟨cycle.2, by rw [hnow]; exact List.mem_cons_self, hprobe⟩
    · obtain ⟨probes, hcycle, hprobe⟩ := ih h
      exact ⟨probes, .tail _ hcycle, hprobe⟩

theorem pairwise_run (hclock : cycles.Pairwise fun a b => a.1 ≤ b.1) :
    (run s cycles).Pairwise fun a b => a.now ≤ b.now := by
  induction cycles generalizing s with
  | nil => exact .nil
  | cons cycle cycles ih =>
    obtain ⟨hfirst, hrest⟩ := List.pairwise_cons.1 hclock
    refine List.pairwise_append.2 ⟨?_, ih hrest, fun a ha b hb => ?_⟩
    · exact List.pairwise_of_forall_mem_list fun a ha b hb => by
        rw [(mem_oneCycle ha).1, (mem_oneCycle hb).1]
        exact UInt64.le_refl _
    · obtain ⟨probes, hcycle, -⟩ := mem_run hb
      rw [(mem_oneCycle ha).1]
      exact hfirst _ hcycle

theorem visited_or_aborted {now : UInt64} {probes : List Probe} {probe : Probe} (h : probe ∈ probes) :
    ∃ v ∈ (oneCycle now s probes).2, v.probe = probe ∨ v.outcome = .aborted := by
  induction probes generalizing s with
  | nil => cases h
  | cons first probes ih =>
    simp only [oneCycle]
    split_ifs with habort
    · exact ⟨_, List.mem_singleton_self _, .inr habort⟩
    · obtain rfl | h := List.mem_cons.1 h
      · exact ⟨_, List.mem_cons_self, .inl rfl⟩
      · obtain ⟨v, hv, hcases⟩ := ih h
        exact ⟨v, .tail _ hv, hcases⟩

theorem visited_run {now : UInt64} {probes : List Probe} {probe : Probe} (hcycle : (now, probes) ∈ cycles)
    (hprobe : probe ∈ probes) :
    ∃ v ∈ run s cycles, v.now = now ∧ (v.probe = probe ∨ v.outcome = .aborted) := by
  induction cycles generalizing s with
  | nil => cases hcycle
  | cons cycle cycles ih =>
    obtain rfl | hcycle := List.mem_cons.1 hcycle
    · obtain ⟨v, hv, hcases⟩ := visited_or_aborted hprobe
      exact ⟨v, List.mem_append_left _ hv, (mem_oneCycle hv).1, hcases⟩
    · obtain ⟨v, hv, hcases⟩ := ih hcycle
      exact ⟨v, List.mem_append_right _ hv, hcases⟩

theorem spaced_of_linked (hlinked : Linked s visits) (hclock : visits.Pairwise fun a b => a.now ≤ b.now)
    (hfixed : ∀ v ∈ visits, Fixed id params v.probe) (hrange : ∀ v ∈ visits, InRange params v.now) :
    (∀ v ∈ visits, v.Fires id → Ready id params s v.now) ∧
      (visits.filter (Visit.Fires id)).Pairwise fun a b => a.now.toNat +
        max params.checkIntervalSecs.toNat params.postTriggerWaitSecs.toNat ≤ b.now.toNat := by
  induction visits generalizing s with
  | nil => exact ⟨by simp, .nil⟩
  | cons first visits ih =>
    obtain ⟨rfl, hlinked⟩ := hlinked
    obtain ⟨hle, hclock⟩ := List.pairwise_cons.1 hclock
    obtain ⟨hready, hspaced⟩ := ih hlinked hclock (fun v hv => hfixed v (.tail _ hv))
      fun v hv => hrange v (.tail _ hv)
    have hfirst := hfixed first List.mem_cons_self
    refine ⟨fun v hv hfires => ?_, ?_⟩
    · obtain rfl | hv := List.mem_cons.1 hv
      · exact (hfires.ready hfirst).1
      · exact ready_before hfirst (hle v hv) (hready v hv hfires)
    · by_cases hfires : first.Fires id
      · rw [List.filter_cons_of_pos (by simpa using hfires), List.pairwise_cons]
        refine ⟨fun v hv => ?_, hspaced⟩
        obtain ⟨hv, hv'⟩ := List.mem_filter.1 hv
        exact hfires.spaced hfirst (hrange first List.mem_cons_self) (hready v hv (by simpa using hv'))
      · rwa [List.filter_cons_of_neg (by simpa using hfires)]

/-- **Threshold fires are spaced and justified**: in every run with a clock that does not go back, two fires of
a policy are both intervals apart, a fire is of a value that reaches the mark, and a policy whose value reaches
it is fired, or the scheduler refuses, whenever the policy is looked at, is due and is not cooling down.  It is
looked at in every cycle that lists it, unless a query before it fails. -/
theorem threshold_fires_spaced_and_justified (hclock : cycles.Pairwise fun a b => a.1 ≤ b.1)
    (hrange : ∀ cycle ∈ cycles, InRange params cycle.1)
    (hfixed : ∀ cycle ∈ cycles, ∀ probe ∈ cycle.2, Fixed id params probe) :
    ((run .start cycles).filter (Visit.Fires id)).Pairwise (fun a b => a.now.toNat +
        max params.checkIntervalSecs.toNat params.postTriggerWaitSecs.toNat ≤ b.now.toNat) ∧
      (∀ v ∈ run .start cycles, v.probe.id = id →
        (v.outcome = .fired → Reaches params v.probe) ∧
        (v.probe.enabled = true ∧ v.probe.ofFilesystem = true ∧ v.probe.valid = true ∧
            v.probe.targetSupported = true → v.probe.trigger.isSome = true →
          v.before.due id v.now = true → v.before.inCooldown id v.now params.postTriggerWaitSecs = false →
          Reaches params v.probe → v.outcome = .fired ∨ v.outcome = .fireFailed)) ∧
      ∀ now probes probe, (now, probes) ∈ cycles → probe ∈ probes →
        ∃ v ∈ run .start cycles, v.now = now ∧ (v.probe = probe ∨ v.outcome = .aborted) := by
  have hprobe : ∀ v ∈ run .start cycles, Fixed id params v.probe ∧ InRange params v.now := by
    intro v hv
    obtain ⟨probes, hcycle, hv⟩ := mem_run hv
    exact ⟨hfixed _ hcycle _ hv, hrange _ hcycle⟩
  refine ⟨(spaced_of_linked linked_run (pairwise_run hclock) (fun v hv => (hprobe v hv).1)
    fun v hv => (hprobe v hv).2).2, ?_, fun _ _ _ hcycle hprobe => visited_run hcycle hprobe⟩
  rintro v hv rfl
  refine ⟨fun hfired => (Visit.Fires.ready ⟨rfl, hfired⟩ (hprobe v hv).1).2, ?_⟩
  intro hon htrigger hdue hcold hreaches
  obtain ⟨trigger, htrigger⟩ := Option.isSome_iff_exists.1 htrigger
  have hparams := (hprobe v hv).1 rfl trigger htrigger
  exact attempts htrigger hon ⟨hdue, by rw [hparams]; exact hcold⟩ (by rw [hparams]; exact hreaches)

end Runs

/-- A count that stays over its mark: it is checked every minute and fires every two. -/
theorem fires_every_second_check :
    let probe : Probe := ⟨1, true, true, true, some (.count 60 10 120), true, some 12, none, true⟩
    let visits := run .start [(100, [probe]), (160, [probe]), (200, [probe]), (220, [probe])]
    visits.map Visit.outcome = [.fired, .skipped, .skipped, .fired] ∧
      (visits.filter (Visit.Fires 1)).Pairwise fun a b => a.now.toNat + 120 ≤ b.now.toNat := by
  refine ⟨by decide +kernel, ?_⟩
  exact (@threshold_fires_spaced_and_justified 1 ⟨60, 120, .count 10⟩ _ (by decide)
    (by simp [InRange]) (by simp [Fixed, decodeThreshold])).1

end Robinhood.Daemon
