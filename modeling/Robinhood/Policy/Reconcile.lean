/-
# Policy.Reconcile — the schedules of a policy

`parse_trigger` (`rbh-policy/src/trigger_parser.rs`) reads the trigger of a policy, and `reconcile_triggers`
(`rbh-policy/src/reconcile.rs`) replaces the policy's schedule: it removes every schedule whose name starts
with `rbh.policy.` and the number of the policy, and adds a new one.  Manual runs and threshold runs are
schedules too, with longer names (`rbh-api/src/handlers.rs`, `rbh-daemon/src/thresholds.rs`).

The number is written in decimal and nothing follows it in the text that is searched for.  So the schedules
of policy 10 go when policy 1 is reconciled, and the result says exactly whose do.
-/
import Mathlib
import Robinhood.Lib.Table
import Robinhood.Policy.Classifier

namespace Robinhood.Policy

open Lib Predicate

/-! ## §1 — triggers -/

inductive TriggerParseError
  | empty
  | unknown (text : String)
  | badNumber (text : String)
  | badPercentage (text : String) (pct : UInt32)
  | badCron (text : String)
  deriving DecidableEq, Repr

/-- `WindowModeSpec`. -/
inductive WindowModeSpec
  | once
  | repeat (intervalSecs : UInt64)
  deriving DecidableEq, Repr

inductive Threshold
  | count (highCount : UInt64)
  | volume (highBytes : UInt64)
  | ostPct (highPct : UInt32)
  | fsPct (highPct : UInt32)
  deriving DecidableEq, Repr

/-- `TriggerSpec`; of a threshold only what `parse_trigger` reads, the rest are its defaults. -/
inductive TriggerSpec
  | interval (secs : UInt64)
  | cron (expression : String)
  | once (at_ : Int)
  | immediate
  | window (start stop : ℕ) (mode : WindowModeSpec)
  | threshold (measure : Threshold)
  deriving DecidableEq, Repr

/-- `str::parse` of an unsigned number of so many bits. -/
def parseUnsigned (bits : ℕ) (cs : List Char) : Option ℕ :=
  let digits := match cs with
    | '+' :: ds => ds
    | ds => ds
  if digits = [] then none else (parseDigits digits).filter fun n => n < 2 ^ bits

variable (lib : TextLibrary)

/-- `try_parse_interval`: a number with a unit; without a unit it is not an interval. -/
def tryParseInterval (s : List Char) : Except TriggerParseError (Option TriggerSpec) :=
  match unitOf [("h", (3600 : UInt64)), ("m", 60), ("s", 1)] (lib.toLowercase (String.ofList s)).toList with
  | none => .ok none
  | some (digits, mult) =>
    match parseUnsigned 64 (trimSpace digits) with
    | none => .error (.badNumber (String.ofList s))
    | some n => .ok (some (.interval (n.toUInt64 * mult)))

/-- `parse_pct`. -/
def parsePct (s orig : List Char) : Except TriggerParseError UInt32 :=
  let digits := trimSpace ((trimSpace s).reverse.dropWhile (· = '%')).reverse
  match parseUnsigned 32 digits with
  | none => .error (.badNumber (String.ofList orig))
  | some pct =>
    if pct = 0 ∨ 100 < pct then .error (.badPercentage (String.ofList orig) pct.toUInt32)
    else .ok pct.toUInt32

/-- `parse_size`. -/
def parseSize (s orig : List Char) : Except TriggerParseError UInt64 :=
  let upper := (lib.toUppercase (String.ofList (trimSpace s))).toList
  let (digits, mult) := (unitOf [("TB", (1 : UInt64) <<< 40), ("GB", (1 : UInt64) <<< 30),
    ("MB", (1 : UInt64) <<< 20), ("KB", (1 : UInt64) <<< 10)] upper).getD (upper, 1)
  match parseUnsigned 64 (trimSpace digits) with
  | none => .error (.badNumber (String.ofList orig))
  | some n => .ok (n.toUInt64 * mult)

/-- `try_parse_threshold`. -/
def tryParseThreshold (s : List Char) : Except TriggerParseError (Option TriggerSpec) :=
  match splitAtFirst ['>'] s with
  | none => .ok none
  | some (lhs, rhs) =>
    let rhs := trimSpace rhs
    match lib.toLowercase (String.ofList (trimSpace lhs)) with
    | "fs" => (parsePct rhs s).map fun pct => some (.threshold (.fsPct pct))
    | "ost" => (parsePct rhs s).map fun pct => some (.threshold (.ostPct pct))
    | "count" =>
      match parseUnsigned 64 rhs with
      | none => .error (.badNumber (String.ofList s))
      | some n => .ok (some (.threshold (.count n.toUInt64)))
    | "volume" => (parseSize lib rhs s).map fun bytes => some (.threshold (.volume bytes))
    | _ => .ok none

/-- **`parse_trigger`.** -/
def parseTrigger (text : String) : Except TriggerParseError TriggerSpec := do
  let s := trimSpace text.toList
  if s = [] then .error .empty
  else
    match ← tryParseInterval lib s with
    | some spec => .ok spec
    | none =>
      if "cron:".toList <+: s then
        let expr := trimSpace (s.drop 5)
        if expr = [] then .error (.badCron (String.ofList s))
        -- an expression of five fields lacks the seconds
        else if (splitWhitespace expr).length = 5 then .ok (.cron ("0 " ++ String.ofList expr))
        else .ok (.cron (String.ofList expr))
      else
        match ← tryParseThreshold lib s with
        | some spec => .ok spec
        | none => .error (.unknown (String.ofList s))

example : parseTrigger Sample.ascii "cron:0 2 * * *" = .ok (.cron "0 0 2 * * *") := by decide +kernel

/-! ## §2 — the scheduler -/

inductive Trigger
  | every (secs : UInt64)
  | cron (expression : String)
  | once (at_ : Int)
  | immediate
  | daily (start stop : ℕ) (every : Option UInt64)
  deriving DecidableEq, Repr

inductive PolicyError
  | unparsedTrigger (cause : TriggerParseError)
  | zeroInterval
  | zeroRepeat
  | refusedCron (expression : String)
  | scheduler
  deriving DecidableEq, Repr

/-- `build_trigger`; `cronOk` is what the scheduler's cron parser accepts.  Thresholds are watched by the
daemon. -/
def buildTrigger (cronOk : String → Bool) : TriggerSpec → Except PolicyError (Option Trigger)
  | .interval secs => if secs = 0 then .error .zeroInterval else .ok (some (.every secs))
  | .cron expression =>
    if cronOk expression then .ok (some (.cron expression)) else .error (.refusedCron expression)
  | .once at_ => .ok (some (.once at_))
  | .immediate => .ok (some .immediate)
  | .window start stop .once => .ok (some (.daily start stop none))
  | .window start stop (.repeat secs) =>
    if secs = 0 then .error .zeroRepeat else .ok (some (.daily start stop (some secs)))
  | .threshold _ => .ok none

inductive RunKind
  | recurring
  | manual (short : String)
  | threshold (triggerIdx : UInt32) (now : Int64)
  deriving DecidableEq, Repr

/-- What follows the number of the policy in the name of a run. -/
def RunKind.suffix : RunKind → String
  | recurring => ""
  | manual short => ".manual." ++ short
  | threshold triggerIdx now => ".threshold." ++ toString triggerIdx.toNat ++ "." ++ toString now.toInt

def decimal (id : UInt64) : List Char := id.toNat.repr.toList

def runName (policyId : UInt64) (kind : RunKind) : List Char :=
  "rbh.policy.".toList ++ decimal policyId ++ kind.suffix.toList

/-- **A schedule**: a run of a policy, under the name it was added with, or one of another task. -/
inductive Schedule
  | policyRun (policyId : UInt64) (kind : RunKind) (trigger : Trigger)
  | other (name : Option String)
  deriving DecidableEq, Repr

def Schedule.name : Schedule → Option (List Char)
  | policyRun policyId kind _ => some (runName policyId kind)
  | other name => name.map String.toList

abbrev ScheduleId := ℕ

abbrev Schedules := Table ScheduleId Schedule

structure SchedulerFaults where
  list : Bool
  remove : ScheduleId → Bool
  add : Bool

/-- `list_schedules_by_name_prefix`. -/
def listSchedulesByNamePrefix (start : List Char) (schedules : Schedules) : List ScheduleId :=
  (schedules.toList.filter fun e => e.2.name.any fun name => start.isPrefixOf name).map Prod.fst

variable (faults : SchedulerFaults)

/-- The loop of `remove_policy_schedule`: it ends with the first failure. -/
def removeEach : List ScheduleId → Schedules → Except PolicyError Unit × Schedules
  | [], schedules => (.ok (), schedules)
  | id :: ids, schedules =>
    if faults.remove id then (.error .scheduler, schedules) else removeEach ids (schedules.erase id)

/-- **`remove_policy_schedule`.** -/
def removePolicySchedule (policyId : UInt64) (schedules : Schedules) :
    Except PolicyError Unit × Schedules :=
  if faults.list then (.error .scheduler, schedules)
  else removeEach faults (listSchedulesByNamePrefix ("rbh.policy.".toList ++ decimal policyId) schedules)
    schedules

/-- **`reconcile_triggers`**; `newId` is the id the scheduler gives to a schedule that is added. -/
def reconcileTriggers (cronOk : String → Bool) (newId : ScheduleId) (policyId : UInt64)
    (triggerStr : String) (enabled : Bool) (schedules : Schedules) :
    Except PolicyError (Option ScheduleId) × Schedules :=
  match removePolicySchedule faults policyId schedules with
  | (.error e, schedules) => (.error e, schedules)
  | (.ok (), schedules) =>
    if !enabled then (.ok none, schedules)
    else match parseTrigger lib triggerStr with
      | .error e => (.error (.unparsedTrigger e), schedules)
      | .ok spec =>
        match buildTrigger cronOk spec with
        | .error e => (.error e, schedules)
        | .ok none => (.ok none, schedules)
        | .ok (some trigger) =>
          if faults.add then (.error .scheduler, schedules)
          else (.ok (some newId), schedules.insert newId (.policyRun policyId .recurring trigger))

/-! ## §3 — whose schedules go -/

section

variable {lib : TextLibrary} {faults : SchedulerFaults}

theorem isDigit_of_mem_decimal {id : UInt64} {c : Char} (h : c ∈ decimal id) : c.isDigit = Bool.true := by
  rw [decimal, Nat.toList_repr] at h
  exact Nat.isDigit_of_mem_toDigits (by decide) (by decide) h

theorem suffix_cases (kind : RunKind) : kind.suffix.toList = [] ∨ ∃ rest, kind.suffix.toList = '.' :: rest := by
  cases kind with
  | recurring => exact .inl rfl
  | manual | threshold => exact .inr ⟨_, by simp [RunKind.suffix]; rfl⟩

theorem prefix_of_digits {ds es rest : List Char} (hdigits : ∀ c ∈ ds, c.isDigit = Bool.true)
    (hrest : rest = [] ∨ ∃ r, rest = '.' :: r) (h : ds <+: es ++ rest) : ds <+: es := by
  obtain hle | hlt := Nat.lt_or_ge es.length ds.length |>.symm
  · exact List.prefix_of_prefix_length_le h (List.prefix_append es rest) hle
  · -- the character after the number would be a digit
    obtain rfl | ⟨r, rfl⟩ := hrest
    · simpa using h
    · have hdot : '.' ∈ ds := by
        obtain ⟨t, ht⟩ := h
        have hget : (ds ++ t)[es.length]? = some '.' := by
          rw [ht]
          simp
        rw [List.getElem?_append_left hlt] at hget
        exact List.mem_of_getElem? hget
      exact absurd (hdigits '.' hdot) (by decide)

theorem prefix_append_decimal_iff (root : List Char) (p q : UInt64) (kind : RunKind) :
    root ++ decimal p <+: root ++ (decimal q ++ kind.suffix.toList) ↔ decimal p <+: decimal q := by
  refine (List.prefix_append_right_inj root).trans ⟨fun h => ?_, fun h => ?_⟩
  · exact prefix_of_digits (fun _ hc => isDigit_of_mem_decimal hc) (suffix_cases kind) h
  · exact h.trans (List.prefix_append _ _)

/-- **The names that are found for a policy** are those of the policies whose number starts with its own. -/
theorem prefix_runName_iff (p q : UInt64) (kind : RunKind) :
    "rbh.policy.".toList ++ decimal p <+: runName q kind ↔ decimal p <+: decimal q := by
  have hname : runName q kind = "rbh.policy.".toList ++ (decimal q ++ kind.suffix.toList) :=
    List.append_assoc _ _ _
  exact hname ▸ prefix_append_decimal_iff _ p q kind

theorem mem_listSchedulesByNamePrefix {start : List Char} {schedules : Schedules} {id : ScheduleId} :
    id ∈ listSchedulesByNamePrefix start schedules ↔
      ∃ schedule, schedules[id]? = some schedule ∧ ∃ name, schedule.name = some name ∧ start <+: name := by
  simp only [listSchedulesByNamePrefix, List.mem_map, List.mem_filter, Prod.exists, exists_and_right,
    exists_eq_right, Std.ExtTreeMap.mem_toList_iff_getElem?_eq_some]
  refine exists_congr fun schedule => and_congr_right fun _ => ?_
  cases schedule.name <;> simp

theorem removeEach_spares {ids : List ScheduleId} {schedules : Schedules} {id : ScheduleId} (h : id ∉ ids) :
    (removeEach faults ids schedules).2[id]? = schedules[id]? := by
  induction ids generalizing schedules with
  | nil => rfl
  | cons i ids ih =>
    obtain ⟨hne, hnot⟩ := not_or.1 (mt List.mem_cons.2 h)
    rw [removeEach]
    split_ifs
    · rfl
    · rw [ih hnot, Table.getElem?_delete, if_neg (Ne.symm hne)]

theorem removeEach_removes {ids : List ScheduleId} {schedules : Schedules} {id : ScheduleId}
    (hfaults : ∀ i, faults.remove i = Bool.false) (h : id ∈ ids ∨ schedules[id]? = none) :
    (removeEach faults ids schedules).2[id]? = none ∧ (removeEach faults ids schedules).1 = .ok () := by
  induction ids generalizing schedules with
  | nil => exact ⟨h.resolve_left List.not_mem_nil, rfl⟩
  | cons i ids ih =>
    rw [removeEach, hfaults]
    refine ih ?_
    by_cases hid : i = id
    · exact .inr (by simp [hid])
    · rw [List.mem_cons, Table.getElem?_delete, if_neg hid] at *
      obtain (rfl | hmem) | hnone := h
      · exact absurd rfl hid
      · exact .inl hmem
      · exact .inr hnone

/-- **What goes when a policy's schedule is removed**, at most, and without failures exactly. -/
theorem removePolicySchedule_spares {p q : UInt64} {kind : RunKind} {trigger : Trigger}
    {schedules : Schedules} {id : ScheduleId} (hid : schedules[id]? = some (.policyRun q kind trigger))
    (h : ¬ decimal p <+: decimal q) :
    (removePolicySchedule faults p schedules).2[id]? = schedules[id]? := by
  unfold removePolicySchedule
  split_ifs
  · rfl
  · refine removeEach_spares fun hmem => h ?_
    obtain ⟨schedule, hschedule, name, hname, hpre⟩ := mem_listSchedulesByNamePrefix.1 hmem
    obtain rfl := Option.some.inj (hid.symm.trans hschedule)
    obtain rfl := Option.some.inj hname
    exact (prefix_runName_iff p q kind).1 hpre

def SchedulerFaults.none : SchedulerFaults := ⟨.false, fun _ => .false, .false⟩

theorem removePolicySchedule_removes {p q : UInt64} {kind : RunKind} {trigger : Trigger}
    {schedules : Schedules} {id : ScheduleId} (hid : schedules[id]? = some (.policyRun q kind trigger))
    (h : decimal p <+: decimal q) :
    (removePolicySchedule .none p schedules).2[id]? = none ∧
      (removePolicySchedule .none p schedules).1 = .ok () := by
  refine removeEach_removes (fun _ => rfl) (.inl (mem_listSchedulesByNamePrefix.2 ?_))
  exact ⟨_, hid, _, rfl, (prefix_runName_iff p q kind).2 h⟩

theorem reconcileTriggers_lookup {cronOk : String → Bool} {newId : ScheduleId} {p : UInt64}
    {triggerStr : String} {enabled : Bool} {schedules : Schedules} {id : ScheduleId} (hid : id ≠ newId) :
    (reconcileTriggers lib faults cronOk newId p triggerStr enabled schedules).2[id]? =
      (removePolicySchedule faults p schedules).2[id]? := by
  unfold reconcileTriggers
  rcases removePolicySchedule faults p schedules with ⟨e | u, rest⟩
  · rfl
  · cases enabled with
    | false => rfl
    | true =>
      cases parseTrigger lib triggerStr with
      | error => rfl
      | ok spec =>
        dsimp only [Bool.not_true]
        rcases buildTrigger cronOk spec with e | _ | trigger
        · rfl
        · rfl
        · cases faults.add with
          | true => rfl
          | false => simp [Ne.symm hid]

end

def SparesOthers (p : UInt64) (before after : Schedules) : Prop :=
  ∀ (id : ScheduleId) q kind trigger, q ≠ p → before[id]? = some (Schedule.policyRun q kind trigger) →
    after[id]? = some (Schedule.policyRun q kind trigger)

/-- **When reconciling a policy leaves the others scheduled.**  Whatever the trigger and the flag, and
whichever calls of the scheduler fail, no schedule of another policy goes, when the policy is reconciled and
when its schedule is removed, exactly if the number of no other scheduled policy starts with the digits of
this one's. -/
theorem reconcile_spares_others_iff (lib : TextLibrary) (cronOk : String → Bool) (p : UInt64)
    (triggerStr : String) (enabled : Bool) (schedules : Schedules) :
    (∀ faults, (∀ newId, schedules[newId]? = none → SparesOthers p schedules
          (reconcileTriggers lib faults cronOk newId p triggerStr enabled schedules).2) ∧
        SparesOthers p schedules (removePolicySchedule faults p schedules).2) ↔
      ∀ (id : ScheduleId) q kind trigger, q ≠ p →
        schedules[id]? = some (Schedule.policyRun q kind trigger) → ¬ decimal p <+: decimal q := by
  constructor
  · intro hspares id q kind trigger hq hid hpre
    have hthere := (hspares .none).2 id q kind trigger hq hid
    rw [(removePolicySchedule_removes hid hpre).1] at hthere
    cases hthere
  · intro hdistinct faults
    have hremove : SparesOthers p schedules (removePolicySchedule faults p schedules).2 := by
      intro id q kind trigger hq hid
      rw [removePolicySchedule_spares hid (hdistinct id q kind trigger hq hid), hid]
    refine ⟨fun newId hfresh id q kind trigger hq hid => ?_, hremove⟩
    have hne : id ≠ newId := by
      rintro rfl
      rw [hfresh] at hid
      cases hid
    rw [reconcileTriggers_lookup hne]
    exact hremove id q kind trigger hq hid

/-- Policy 1 is disabled; the hourly run of policy 10 is gone. -/
theorem policy_one_unschedules_policy_ten :
    (reconcileTriggers Sample.ascii .none (fun _ => .true) 9 1 "1h" .false
        ((∅ : Schedules).insert 4 (.policyRun 10 .recurring (.every 3600)))) = (.ok none, ∅) := by
  decide +kernel

end Robinhood.Policy
