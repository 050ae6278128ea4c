import Foxclaw.Cron.DueSlots

/-!
# The timer of the cron service

This module models `armTimer`, `armRunningRecheckTimer` and the frame of `onTimer` in
`cron/service/timer.ts`: the flag `running`, the timer, and the ways through
`try … finally`. A tick that leaves without arming the timer is the last one.

## The model

A tick (`onTimer`) sets the flag and arms a watchdog, collects the due jobs, runs them,
applies their outcomes, and in the `finally` block sweeps the sessions, clears the flag and
arms the timer. It is at one of four points (`TickStage`, or not there); at each of them any
other operation of the service may come between (`Action.cron`), arm the timer
(`Action.arm`), or the watchdog may fire (`Action.fire`). A section that throws goes on in
the `finally` block. There the sweep's errors are caught, but not those of
`resolveSessionStorePath`.

## What is proved

* `onTimer_exit_alive_iff` — a tick leaves the scheduler alive exactly if
  `resolveSessionStorePath` does not throw and the earliest `nextRunAtMs` is not 0, which
  `armTimer` takes for none.
-/

namespace Foxclaw.Cron.TimerLoop

open Option Runs

/-! ### Arming the timer -/

def MAX_TIMER_DELAY_MS : ℤ := 60000

/-- When a job wakes the timer. -/
def wakeAtMs (job : CronJob) : Option ℤ := if job.enabled then job.state.nextRunAtMs else none

def nextWakeAtMs (jobs : List CronJob) : Option ℤ :=
  match jobs.filterMap wakeAtMs with
  | [] => none
  | first :: rest => some (rest.foldl min first)

/-- The delay `armTimer` gives `setTimeout`. -/
def timerDelayMs (nextAt now : ℤ) : ℤ :=
  let delay := max (nextAt - now) 0
  let flooredDelay := if delay = 0 then MIN_REFIRE_GAP_MS else delay
  min flooredDelay MAX_TIMER_DELAY_MS

/-- The timer after `armTimer`: its delay, if it is armed. -/
def armTimer (cronEnabled : Bool) (jobs : List CronJob) (now : ℤ) : Option ℤ :=
  if !cronEnabled then none
  else
    match nextWakeAtMs jobs with
    | none => none
    -- `!nextAt`
    | some nextAt => if nextAt = 0 then none else some (timerDelayMs nextAt now)

/-- The timer after `armRunningRecheckTimer`. -/
def armRunningRecheckTimer : Option ℤ := some MAX_TIMER_DELAY_MS

/-! ### Ticks -/

/-- How far a tick has come. -/
inductive TickStage where
  /-- It waits for the lock of its first section. -/
  | collecting
  /-- Its jobs are running, or it waits for the lock of its second section. -/
  | running
  | sweeping
  deriving DecidableEq

/-- The service with its timer. -/
structure Scheduler where
  /-- The stores and the runs under way. -/
  system : CronSystem
  /-- `state.running`. -/
  running : Bool
  /-- `state.timer`: the delay it was armed with. -/
  timer : Option ℤ
  stage : Option TickStage

/-- The jobs in memory. -/
def Scheduler.jobs (s : Scheduler) : List CronJob := s.system.service.jobs

/-- What can happen. -/
inductive Action where
  /-- The timer fires: `onTimer` is called. -/
  | fire
  | collect (io : Io)
  /-- Another operation, or a job of the tick starts or ends. -/
  | cron (a : Cron.Action)
  /-- The second section of the tick. -/
  | apply (io : Io)
  /-- An operation calls `armTimer`. -/
  | arm (now : ℤ)
  /-- The tick leaves the `finally` block. -/
  | leave (resolverThrows : Bool) (now : ℤ)

/-- The two sections of a tick. -/
def isTickSection : Cron.Action → Bool
  | .collect _ | .apply _ => true
  | _ => false

section Steps

variable (deps : CronDeps) (retry : RetryConfig) (cronEnabled : Bool)

/-- `onTimer`, up to its first section. -/
def onTimer (s : Scheduler) : Scheduler :=
  if s.running then { s with timer := armRunningRecheckTimer }
  else
    { s with
      running := true
      timer := armRunningRecheckTimer
      stage := some .collecting }

/-- The end of the `finally` block. -/
def leaveTick (resolverThrows : Bool) (now : ℤ) (s : Scheduler) : Scheduler :=
  if resolverThrows then { s with stage := none }
  else
    { s with
      running := false
      timer := armTimer cronEnabled s.jobs now
      stage := none }

def next (s : Scheduler) : Action → Option Scheduler
  | .fire => some (onTimer s)
  | .collect io =>
    if s.stage = some .collecting then
      (Cron.next deps retry s.system (.collect io)).map fun system =>
        { s with system, stage := some (if system.tick.isSome then .running else .sweeping) }
    else none
  | .cron a =>
    if isTickSection a then none
    else (Cron.next deps retry s.system a).map fun system => { s with system }
  | .apply io =>
    if s.stage = some .running then
      (Cron.next deps retry s.system (.apply io)).map fun system =>
        { s with system, stage := some .sweeping }
    else none
  | .arm now => some { s with timer := armTimer cronEnabled s.jobs now }
  | .leave resolverThrows now =>
    if s.stage = some .sweeping then some (leaveTick cronEnabled resolverThrows now s) else none

end Steps

/-! ### What is asked -/

/-- The steps at which a call of `onTimer` ends. -/
def Exits (s : Scheduler) : Action → Prop
  | .fire => s.running = true
  | .leave _ _ => True
  | _ => False

/-- The scheduler goes on: the flag is set only while there is a tick, and the timer is armed
if a job waits for it. -/
structure Alive (s : Scheduler) : Prop where
  running : s.running = true → s.stage.isSome = true
  armed : (∃ job ∈ s.jobs, job.enabled = true ∧ job.state.nextRunAtMs.isSome = true) →
    ∃ delay, s.timer = some delay ∧ 1 ≤ delay ∧ delay ≤ 60000

/-- The `finally` block gets to its end, and the earliest `nextRunAtMs` it finds is not 0. -/
def Rearms (s : Scheduler) : Action → Prop
  | .leave resolverThrows _ => resolverThrows = false ∧ nextWakeAtMs s.jobs ≠ some 0
  | _ => True

instance (s : Scheduler) (a : Action) : Decidable (Rearms s a) := by
  unfold Rearms
  split <;> exact inferInstance

/-! ### Waking -/

/-- The timer has something to wait for exactly if an enabled job has a next run. -/
theorem nextWakeAtMs_isSome_iff (jobs : List CronJob) :
    (nextWakeAtMs jobs).isSome = true ↔
      ∃ job ∈ jobs, job.enabled = true ∧ job.state.nextRunAtMs.isSome = true := by
  have hwake (job : CronJob) : (∃ at', wakeAtMs job = some at') ↔
      job.enabled = true ∧ job.state.nextRunAtMs.isSome = true := by
    unfold wakeAtMs
    split_ifs with he
    · simp [he, isSome_iff_exists]
    · simp [he]
  have hmem : (nextWakeAtMs jobs).isSome = true ↔ ∃ at', at' ∈ jobs.filterMap wakeAtMs := by
    unfold nextWakeAtMs
    split
    · rename_i h
      simp [h]
    · rename_i first rest h
      simp [h]
  rw [hmem]
  constructor
  · rintro ⟨at', h⟩
    obtain ⟨job, hjob, hat⟩ := List.mem_filterMap.mp h
    exact ⟨job, hjob, (hwake job).mp ⟨at', hat⟩⟩
  · rintro ⟨job, hjob, h⟩
    obtain ⟨at', hat⟩ := (hwake job).mpr h
    exact ⟨at', List.mem_filterMap.mpr ⟨job, hjob, hat⟩⟩

theorem timerDelayMs_bounds (nextAt now : ℤ) :
    1 ≤ timerDelayMs nextAt now ∧ timerDelayMs nextAt now ≤ 60000 := by
  unfold timerDelayMs MIN_REFIRE_GAP_MS MAX_TIMER_DELAY_MS
  dsimp only
  split_ifs <;> omega

/-- `armTimer` takes a wake at 0 for none. -/
theorem armTimer_of_zero {jobs : List CronJob} (h : nextWakeAtMs jobs = some 0)
    (cronEnabled : Bool) (now : ℤ) : armTimer cronEnabled jobs now = none := by
  unfold armTimer
  rw [h]
  split_ifs <;> rfl

/-- `armTimer` arms the timer for any other wake. -/
theorem armTimer_of_wake {jobs : List CronJob} {nextAt : ℤ} (h : nextWakeAtMs jobs = some nextAt)
    (hzero : nextAt ≠ 0) (now : ℤ) : armTimer true jobs now = some (timerDelayMs nextAt now) := by
  unfold armTimer
  rw [h]
  simp [hzero]

/-! ### Every run -/

section Run

variable {deps : CronDeps} {retry : RetryConfig} {s s' t : Scheduler}

/-- The flag is set exactly while there is a tick. -/
def Matched (s : Scheduler) : Prop := s.running = s.stage.isSome

/-- A tick that gets to the end of the `finally` block clears the flag. -/
theorem next_matched (a : Action) (h : Matched s) (ha : Rearms s a)
    (hs : next deps retry true s a = some s') : Matched s' := by
  unfold Matched at h ⊢
  cases a with
  | fire =>
    cases hs
    unfold onTimer
    split_ifs with hr
    · exact h
    · rfl
  | collect io =>
    rw [next] at hs
    split_ifs at hs with hst
    obtain ⟨system, -, rfl⟩ := map_eq_some_iff.mp hs
    rw [h, hst]
    rfl
  | cron a =>
    rw [next] at hs
    split_ifs at hs
    obtain ⟨system, -, rfl⟩ := map_eq_some_iff.mp hs
    exact h
  | apply io =>
    rw [next] at hs
    split_ifs at hs with hst
    obtain ⟨system, -, rfl⟩ := map_eq_some_iff.mp hs
    rw [h, hst]
    rfl
  | arm now =>
    cases hs
    exact h
  | leave resolverThrows now =>
    rw [next] at hs
    split_ifs at hs
    cases hs
    rw [leaveTick, if_neg (by rw [ha.1]; simp)]
    rfl

theorem onTimer_reentrant_alive (h : Matched s) (hr : s.running = true) : Alive (onTimer s) := by
  unfold onTimer
  rw [if_pos hr]
  exact ⟨fun _ => h.symm.trans hr, fun _ => ⟨_, rfl, by decide, by decide⟩⟩

/-- A tick that gets to the end of the `finally` block and finds a wake arms the timer. -/
theorem leaveTick_alive (now : ℤ) (hzero : nextWakeAtMs s.jobs ≠ some 0) :
    Alive (leaveTick true false now s) := by
  refine ⟨fun hr => (by cases hr), fun hwake => ?_⟩
  obtain ⟨nextAt, hnext⟩ :=
    isSome_iff_exists.mp ((nextWakeAtMs_isSome_iff s.jobs).mpr hwake)
  have hne : nextAt ≠ 0 := fun h => hzero (h ▸ hnext)
  exact ⟨_, armTimer_of_wake hnext hne now, timerDelayMs_bounds nextAt now⟩

/-- A tick that does not get there leaves the flag set; one that finds a wake at 0 leaves the
timer unarmed. -/
theorem rearms_of_alive {resolverThrows : Bool} {now : ℤ} (hr : s.running = true)
    (h : Alive (leaveTick true resolverThrows now s)) : Rearms s (.leave resolverThrows now) := by
  cases resolverThrows with
  | true =>
    have hstage := h.running hr
    cases hstage
  | false =>
    refine ⟨rfl, fun hzero => ?_⟩
    have hwake := (nextWakeAtMs_isSome_iff s.jobs).mp (by rw [hzero]; rfl)
    obtain ⟨delay, hdelay, -⟩ := h.armed hwake
    have hnone : armTimer true s.jobs now = some delay := hdelay
    rw [armTimer_of_zero hzero] at hnone
    cases hnone

/-- After a run in which every tick got to its end and found no wake at 0, a call of `onTimer`
leaves the scheduler alive exactly if it does so too. -/
theorem onTimer_exit_alive_iff {as : List Action} {a : Action} (hrunning : s.running = false)
    (hstage : s.stage = none) (hrun : exec (next deps retry true) s as = some s')
    (hmeets : Meets (next deps retry true) Rearms s as) (hexit : Exits s' a)
    (hstep : next deps retry true s' a = some t) : Alive t ↔ Rearms s' a := by
  have hstart : Matched s := by
    unfold Matched
    rw [hrunning, hstage]
    rfl
  have hmatched : Matched s' :=
    exec_invariant_of_meets (fun _ a _ h hp hn => next_matched a h hp hn) hmeets hstart hrun
  cases a with
  | fire =>
    cases hstep
    exact ⟨fun _ => trivial, fun _ => onTimer_reentrant_alive hmatched hexit⟩
  | leave resolverThrows now =>
    rw [next] at hstep
    split_ifs at hstep with hst
    cases hstep
    constructor
    · exact rearms_of_alive (by rw [hmatched, hst]; rfl)
    · rintro ⟨rfl, hzero⟩
      exact leaveTick_alive now hzero
  | collect io => exact hexit.elim
  | cron a => exact hexit.elim
  | apply io => exact hexit.elim
  | arm now => exact hexit.elim

end Run

/-- The service before its first step. -/
def idleScheduler : Scheduler := ⟨emptySystem, false, none, none⟩

/-- A tick that runs the job `a`; the watchdog fires meanwhile. -/
def tickRun (between : List Action) : List Action :=
  [.cron (.add (ioAt 0) (everyMinute "a")), .cron (.add (ioAt 1) (everyMinute "b")), .arm 1,
    .fire, .collect (ioAt 60000), .cron (.startRun 0 60000), .fire] ++ between ++
    [.cron (.endRun 0 .ok none 60010), .apply (ioAt 60010)]

/-- The end of a tick that ran a job. -/
theorem onTimer_exit_alive_tick :
    ∃ s' t, exec (next noCron defaultRetry true) idleScheduler (tickRun []) = some s' ∧
      next noCron defaultRetry true s' (.leave false 60020) = some t ∧ Alive t := by
  refine ⟨_, _, rfl, rfl, ?_⟩
  have hrun : exec (next noCron defaultRetry true) idleScheduler (tickRun []) = some _ := rfl
  have hmeets : Meets (next noCron defaultRetry true) Rearms idleScheduler (tickRun []) := by decide
  refine (onTimer_exit_alive_iff (a := .leave false 60020) rfl rfl hrun hmeets trivial rfl).mpr ?_
  decide

/-- A patch that sets the next run of a job. -/
def nextRunPatch (at' : ℤ) : CronJobPatch :=
  ⟨none, none, none, some ⟨some (some at'), none, none, none, none, none, none, none, none⟩, none⟩

/-- While a tick runs the job `a`, the next run of `b` is set to 0, which makes it due. The tick
ends with no timer armed. -/
theorem wake_at_zero_stops_timer :
    ∃ s' t, exec (next noCron defaultRetry true) idleScheduler
        (tickRun [.cron (.update (ioAt 60005) "b" (nextRunPatch 0))]) = some s' ∧
      Exits s' (.leave false 60020) ∧
      next noCron defaultRetry true s' (.leave false 60020) = some t ∧ ¬ Alive t := by
  refine ⟨_, _, rfl, trivial, rfl, fun h => ?_⟩
  obtain ⟨delay, hdelay, -⟩ := h.armed (by decide)
  cases hdelay

end Foxclaw.Cron.TimerLoop
