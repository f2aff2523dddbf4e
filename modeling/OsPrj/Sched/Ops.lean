import OsPrj.Sched.Core

/-!
# core.c: scheduling, priorities, and runs

The operations that take the run queue lock, one definition for each, and `step`, which performs
one of them.  `Run` collects the states that sequences of operations lead to.
-/

namespace Sched

open ListHead

variable {T E : Type} [DecidableEq T] (K : Kernel T E)

/-! ## schedule -/

def putPrevTask (s : Sys T E) (prev : T) : Sys T E :=
  let s := if (s.task prev).onRq ∨ s.acct.skipClockUpdate < 0 then updateRqClock K s else s
  classPutPrevTask K s prev

/-- The walk of `pick_next_task` over the classes. -/
def pickFirst : List SchedClass → Sys T E → Except Fault (T × Sys T E)
  | [], _ => .error .bug
  | c :: rest, s => do
      let (p, s) ← classPickNextTask K c s
      match p with
      | some p => pure (p, s)
      | none => pickFirst rest s

def pickNextTask (s : Sys T E) : Except Fault (T × Sys T E) :=
  if s.queues.nrRunning = K.hNrRunning s.other then do
    let (p, s) ← classPickNextTask K .fair s
    match p with
    | some p => pure (p, s)
    | none => pickFirst K forEachClass s
  else pickFirst K forEachClass s

/-- What `__schedule` finds out elsewhere: `preempt_count() & PREEMPT_ACTIVE`,
`signal_pending_state` and the answer of `wq_worker_sleeping`. -/
structure ScheduleArgs (T : Type) where
  preemptActive : Bool
  signalPending : Bool
  toWakeup : Option T

/-- The part of `__schedule` that puts a sleeping `prev` off the queue. -/
def scheduleOut (s : Sys T E) (a : ScheduleArgs T) : Sys T E :=
  let prev := s.core.curr
  if (s.task prev).state ≠ 0 ∧ a.preemptActive = false then
    if a.signalPending then s.setTask prev fun t => { t with state := taskRunning }
    else
      let s := (deactivateTask K s prev true).setTask prev fun t => { t with onRq := false }
      if (s.task prev).wqWorker then
        match a.toWakeup with
        | some p => tryToWakeUpLocal K s p
        | none => s
      else s
  else s

/-- `__schedule`, one pass; `goto need_resched` is another one. -/
def schedule (s : Sys T E) (a : ScheduleArgs T) : Except Fault (Sys T E) := do
  let prev := s.core.curr
  let s := putPrevTask K (scheduleOut K s a) prev
  let (next, s) ← pickNextTask K s
  let s := s.clearNeedResched prev
  let s := { s with acct := { s.acct with skipClockUpdate := 0 } }
  if prev ≠ next then pure { s with core := { s.core with curr := next } } else pure s

/-- `sys_sched_yield` -/
def schedYield (s : Sys T E) (a : ScheduleArgs T) : Except Fault (Sys T E) :=
  schedule K (yieldTask K s) a

def schedulerTick (s : Sys T E) : Sys T E := classTaskTick K (updateRqClock K s)

/-! ## Policies and priorities -/

/-- `rt_mutex_getprio`, of `kernel/rtmutex.c`. -/
def rtMutexGetprio (t : TaskStruct) : ℤ :=
  match t.topPiWaiter with
  | none => t.normalPrio
  | some prio => min prio t.normalPrio

/-- `__setscheduler` -/
def setscheduler (t : TaskStruct) (policy prio : ℤ) : TaskStruct :=
  let t := { t with policy := policy, rtPriority := prio }
  let t := { t with normalPrio := normalPrio t }
  let t := { t with prio := rtMutexGetprio t }
  let t := { t with schedClass :=
    if policy = 6 then .wrr else if rtPrio t.prio then .rt else .fair }
  setLoadWeight t

/-- `-EINVAL` -/
def einval : ℤ := -22

/-- `-EPERM` -/
def eperm : ℤ := -1

/-- Who calls `__sched_setscheduler`: its argument `user`, `capable(CAP_SYS_NICE)`,
`check_same_owner(p)` and the answer of `security_task_setscheduler(p)`. -/
structure Caller where
  user : Bool
  capSysNice : Bool
  sameOwner : Bool
  security : ℤ

def canNice (t : TaskStruct) (c : Caller) (nice : ℤ) : Bool :=
  decide (20 - nice ≤ t.rlimitNice) || c.capSysNice

/-- `policy & SCHED_RESET_ON_FORK` -/
def resetOnForkBit (policy : ℤ) : ℕ := policy.toNat &&& 0x40000000

/-- The checks of `__sched_setscheduler` before it takes the locks: the policy and the reset flag
it goes on with, or its return value. -/
def setschedulerChecks (t : TaskStruct) (c : Caller) (policy prio : ℤ) :
    Except ℤ (ℤ × Bool) := do
  let (policy, resetOnFork) ←
    if policy < 0 then pure (t.policy, t.schedResetOnFork)
    else
      let reset := resetOnForkBit policy
      let policy := policy - reset
      if policy ≠ schedFifo ∧ policy ≠ schedRr ∧ policy ≠ schedWrr ∧ policy ≠ schedNormal ∧
          policy ≠ schedBatch ∧ policy ≠ schedIdle then
        throw einval
      else pure (policy, reset != 0)
  if prio < 0 ∨ (t.hasMm ∧ maxUserRtPrio - 1 < prio) ∨ (!t.hasMm ∧ maxRtPrio - 1 < prio) then
    throw einval
  if rtPolicy policy ≠ decide (prio ≠ 0) ∧ policy ≠ schedWrr then throw einval
  if c.user ∧ !c.capSysNice then
    if rtPolicy policy then
      if policy ≠ t.policy ∧ t.rlimitRtprio = 0 then throw eperm
      if t.rtPriority < prio ∧ (t.rlimitRtprio : ℤ) < prio then throw eperm
    if t.policy = schedIdle ∧ policy ≠ schedIdle ∧ !canNice t c (prioToNice t.staticPrio) then
      throw eperm
    if !c.sameOwner then throw eperm
    if t.schedResetOnFork ∧ !resetOnFork then throw eperm
  if c.user ∧ c.security ≠ 0 then throw c.security
  pure (policy, resetOnFork)

/-- The change itself, from `on_rq = p->on_rq` to `check_class_changed`. -/
def setschedulerChange (s : Sys T E) (p : T) (policy prio : ℤ) (resetOnFork : Bool) : Sys T E :=
  let onRq := (s.task p).onRq
  let running := s.core.curr = p
  let s := if onRq then dequeueTask K s p false else s
  let s := if running then classPutPrevTask K s p else s
  let oldprio := (s.task p).prio
  let prevClass := (s.task p).schedClass
  let s := s.setTask p fun t =>
    setscheduler { t with schedResetOnFork := resetOnFork } policy prio
  let s := if running then classSetCurrTask K s else s
  let s := if onRq then enqueueTask K s p { wakeup := false, head := false } else s
  checkClassChanged K s p prevClass oldprio

/-- The part of `__sched_setscheduler` under the locks, for a policy and priority that passed the
checks. -/
def setschedulerLocked (s : Sys T E) (p : T) (policy prio : ℤ) (resetOnFork : Bool) :
    ℤ × Sys T E :=
  if s.core.stop = some p then (einval, s)
  else if policy = (s.task p).policy ∧
      (rtPolicy policy = false ∨ prio = (s.task p).rtPriority) then (0, s)
  else (0, setschedulerChange K s p policy prio resetOnFork)

/-- `__sched_setscheduler`, when nobody changes `p->policy` between the checks and the locks, in a
build without `CONFIG_RT_GROUP_SCHED`. -/
def schedSetscheduler (s : Sys T E) (p : T) (policy prio : ℤ) (c : Caller) : ℤ × Sys T E :=
  match setschedulerChecks (s.task p) c policy prio with
  | .error e => (e, s)
  | .ok (policy, resetOnFork) => setschedulerLocked K s p policy prio resetOnFork

/-- `effective_prio`, with the `normal_prio` it stores. -/
def effectivePrio (t : TaskStruct) : TaskStruct :=
  let t := { t with normalPrio := normalPrio t }
  if !rtPrio t.prio then { t with prio := t.normalPrio } else t

def setUserNice (s : Sys T E) (p : T) (nice : ℤ) : Sys T E :=
  if prioToNice (s.task p).staticPrio = nice ∨ nice < -20 ∨ nice > 19 then s
  else if rtPolicy (s.task p).policy then
    s.setTask p fun t => { t with staticPrio := niceToPrio nice }
  else
    let onRq := (s.task p).onRq
    let s := if onRq then dequeueTask K s p false else s
    let oldPrio := (s.task p).prio
    let s := s.setTask p fun t =>
      effectivePrio (setLoadWeight { t with staticPrio := niceToPrio nice })
    let delta := (s.task p).prio - oldPrio
    if onRq then
      let s := enqueueTask K s p { wakeup := false, head := false }
      if delta < 0 ∨ (delta > 0 ∧ s.core.curr = p) then s.reschedTask s.core.curr else s
    else s

def rtMutexSetprio (s : Sys T E) (p : T) (prio : ℤ) : Except Fault (Sys T E) :=
  if prio < 0 ∨ prio > maxPrio then .error .bug
  else if p = s.core.idle then .ok (s.warnOn (p != s.core.curr) .boostIdle)
  else
    let oldprio := (s.task p).prio
    let prevClass := (s.task p).schedClass
    let onRq := (s.task p).onRq
    let running := s.core.curr = p
    let s := if onRq then dequeueTask K s p false else s
    let s := if running then classPutPrevTask K s p else s
    let s := s.setTask p fun t =>
      { t with schedClass := if rtPrio prio then .rt else .fair, prio := prio }
    let s := if running then classSetCurrTask K s else s
    let s :=
      if onRq then enqueueTask K s p { wakeup := false, head := decide (oldprio < prio) } else s
    .ok (checkClassChanged K s p prevClass oldprio)

/-- `sched_move_task`, to the group with the given path. -/
def schedMoveTask (s : Sys T E) (p : T) (groupPath : String) : Sys T E :=
  let running := s.core.curr = p
  let onRq := (s.task p).onRq
  let s := if onRq then dequeueTask K s p false else s
  let s := if running then classPutPrevTask K s p else s
  let s := s.setTask p fun t => { t with schedTaskGroup := groupPath }
  -- the fair class alone has a task_move_group
  let s :=
    if (s.task p).schedClass = .fair then s.applyHook (K.taskMoveGroupOther .fair s p onRq) else s
  let s := if running then classSetCurrTask K s else s
  if onRq then enqueueTask K s p { wakeup := false, head := false } else s

/-! ## Runs -/

/-- A field of a task that code outside `kernel/sched` writes, with its new value: a limit, the
address space, or a flag of the task. -/
inductive TaskField where
  | rlimitRttime (soft hard : ℕ)
  | rlimitRtprio (soft : ℕ)
  | rlimitNice (soft : ℕ)
  | mm (hasMm : Bool)
  /-- `PF_WQ_WORKER` -/
  | wqWorker (flag : Bool)
  /-- `PF_FROZEN` -/
  | frozen (flag : Bool)

def TaskField.write (t : TaskStruct) : TaskField → TaskStruct
  | .rlimitRttime soft hard => { t with rlimitRttime := soft, rlimitMaxRttime := hard }
  | .rlimitRtprio soft => { t with rlimitRtprio := soft }
  | .rlimitNice soft => { t with rlimitNice := soft }
  | .mm hasMm => { t with hasMm := hasMm }
  | .wqWorker flag => { t with wqWorker := flag }
  | .frozen flag => { t with frozen := flag }

/-- Whether the field is a bit of `task->flags`, which only the current task writes. -/
def TaskField.inFlags : TaskField → Bool
  | .wqWorker _ | .frozen _ => true
  | .rlimitRttime _ _ | .rlimitRtprio _ | .rlimitNice _ | .mm _ => false

/-- The operations: those of the scheduler, and what tasks and the PI code do to the fields it
reads. -/
inductive Op (T : Type) where
  | fork (p : T)
  | wakeUpNewTask (p : T)
  | tryToWakeUp (p : T) (state : ℕ)
  /-- `set_current_state` -/
  | setCurrentState (state : ℕ)
  | schedule (a : ScheduleArgs T)
  | schedYield (a : ScheduleArgs T)
  | schedulerTick
  | pickNextTask
  /-- `__sched_setscheduler`, its part under the locks -/
  | setscheduler (p : T) (policy prio : ℤ) (resetOnFork : Bool)
  | setUserNice (p : T) (nice : ℤ)
  /-- a waiter comes to or leaves the rt-mutexes of `p` -/
  | setTopPiWaiter (p : T) (prio : Option ℤ)
  | rtMutexSetprio (p : T) (prio : ℤ)
  | schedMoveTask (p : T) (groupPath : String)
  /-- `setrlimit`, `exec`, `exit`, and what a task does to its own flags -/
  | writeField (p : T) (field : TaskField)
  | schedRtPeriodTimer (overrun : BitVec 64)

/-- Perform one operation. -/
def step (s : Sys T E) : Op T → Except Fault (Sys T E)
  | .fork p => .ok (schedFork K s p)
  | .wakeUpNewTask p => .ok (wakeUpNewTask K s p)
  | .tryToWakeUp p state => .ok (tryToWakeUp K s p state)
  | .setCurrentState state => .ok (s.setTask s.core.curr fun t => { t with state := state })
  | .schedule a => schedule K s a
  | .schedYield a => schedYield K s a
  | .schedulerTick => .ok (schedulerTick K s)
  | .pickNextTask => do
      let (_, s) ← pickNextTask K s
      pure s
  | .setscheduler p policy prio resetOnFork =>
      .ok (setschedulerLocked K s p policy prio resetOnFork).2
  | .setUserNice p nice => .ok (setUserNice K s p nice)
  | .setTopPiWaiter p prio => .ok (s.setTask p fun t => { t with topPiWaiter := prio })
  | .rtMutexSetprio p prio => rtMutexSetprio K s p prio
  | .schedMoveTask p groupPath => .ok (schedMoveTask K s p groupPath)
  | .writeField p field => .ok (s.setTask p fun t => field.write t)
  | .schedRtPeriodTimer overrun => .ok (doSchedRtPeriodTimer K.toConfig s overrun)

/-- What the checks of `__sched_setscheduler` let through. -/
def ValidParam (policy prio : ℤ) : Prop :=
  (policy = schedNormal ∨ policy = schedFifo ∨ policy = schedRr ∨ policy = schedBatch ∨
    policy = schedIdle ∨ policy = schedWrr) ∧
  0 ≤ prio ∧ prio ≤ 99 ∧ (rtPolicy policy = decide (prio ≠ 0) ∨ policy = schedWrr)

instance (policy prio : ℤ) : Decidable (ValidParam policy prio) :=
  inferInstanceAs (Decidable (_ ∧ _ ∧ _ ∧ _))

/-- When the callers of an operation perform it. -/
def Allowed (s : Sys T E) : Op T → Prop
  | .fork p => p ∉ s.core.tasklist ∧ p ≠ s.core.idle
  | .wakeUpNewTask p =>
      p ∈ s.core.tasklist ∧ (s.task p).state = taskRunning ∧ (s.task p).onRq = false
  | .tryToWakeUp p _ => p ∈ s.core.tasklist
  | .setCurrentState _ => s.core.curr ≠ s.core.idle
  | .schedule a | .schedYield a => ∀ p ∈ a.toWakeup, p ∈ s.core.tasklist
  | .schedulerTick | .pickNextTask | .schedRtPeriodTimer _ => True
  | .setscheduler p policy prio _ => p ∈ s.core.tasklist ∧ ValidParam policy prio
  | .setUserNice p _ | .schedMoveTask p _ => p ∈ s.core.tasklist
  | .writeField p field => p ∈ s.core.tasklist ∧ (field.inFlags = true → p = s.core.curr)
  | .setTopPiWaiter p prio => p ∈ s.core.tasklist ∧ ∀ w ∈ prio, 0 ≤ w
  | .rtMutexSetprio p prio =>
      (p ∈ s.core.tasklist ∨ p = s.core.idle) ∧ 0 ≤ prio ∧ prio ≤ maxPrio

instance (s : Sys T E) : (op : Op T) → Decidable (Allowed s op)
  | .fork _ => inferInstanceAs (Decidable (_ ∧ _))
  | .wakeUpNewTask _ => inferInstanceAs (Decidable (_ ∧ _ ∧ _))
  | .tryToWakeUp p _ => inferInstanceAs (Decidable (p ∈ _))
  | .setCurrentState _ => inferInstanceAs (Decidable (_ ≠ _))
  | .schedule a => inferInstanceAs (Decidable (∀ p ∈ a.toWakeup, p ∈ s.core.tasklist))
  | .schedYield a => inferInstanceAs (Decidable (∀ p ∈ a.toWakeup, p ∈ s.core.tasklist))
  | .schedulerTick => .isTrue trivial
  | .pickNextTask => .isTrue trivial
  | .schedRtPeriodTimer _ => .isTrue trivial
  | .setscheduler _ _ _ _ => inferInstanceAs (Decidable (_ ∧ _))
  | .setUserNice p _ => inferInstanceAs (Decidable (p ∈ _))
  | .schedMoveTask p _ => inferInstanceAs (Decidable (p ∈ _))
  | .writeField _ _ => inferInstanceAs (Decidable (_ ∧ (_ → _)))
  | .setTopPiWaiter _ prio => inferInstanceAs (Decidable (_ ∧ ∀ w ∈ prio, 0 ≤ w))
  | .rtMutexSetprio _ _ => inferInstanceAs (Decidable (_ ∧ _ ∧ _))

/-- The boot idle task, and the stop task where there is one. -/
structure Boot (T : Type) where
  idle : T
  stop : Option T
  stop_ne : stop ≠ some idle

/-- `INIT_TASK`, as far as scheduling goes. -/
def initTask (cfg : Config) : TaskStruct where
  state := taskRunning
  onRq := false
  policy := schedNormal
  prio := maxPrio - 20
  staticPrio := maxPrio - 20
  normalPrio := maxPrio - 20
  rtPriority := 0
  schedClass := .fair
  schedResetOnFork := false
  schedTaskGroup := "/"
  tgid := 0
  hasMm := false
  load := { weight := 1024, invWeight := 4194304 }
  topPiWaiter := none
  frozen := false
  wqWorker := false
  rlimitRttime := 2 ^ cfg.wordSize - 1
  rlimitMaxRttime := 2 ^ cfg.wordSize - 1
  rlimitRtprio := 0
  rlimitNice := 0

/-- The stop task after `sched_set_stop_task`, asleep. -/
def stopTask (cfg : Config) : TaskStruct :=
  { initTask cfg with
    state := taskInterruptible
    policy := schedFifo
    prio := 0
    normalPrio := 0
    rtPriority := maxRtPrio - 1
    schedClass := .stop }

/-- The state after `sched_init`, with `init_rt_rq`, `init_wrr_rq` and `init_idle`. -/
def init (boot : Boot T) : Sys T E where
  core :=
    { task := fun p =>
        if p = boot.idle then { initTask K.toConfig with schedClass := .idle }
        else if boot.stop = some p then stopTask K.toConfig
        else initTask K.toConfig
      curr := boot.idle
      idle := boot.idle
      stop := boot.stop
      tasklist := boot.stop.toList }
  queues :=
    { links := { next := id, prev := id }
      nrRunning := 0
      rtNrRunning := 0
      wrrNrRunning := 0
      bitmap := fun _ => false }
  other := K.otherInit
  acct :=
    { clock := 0
      clockTask := 0
      skipClockUpdate := 0
      reads := 0
      nrUninterruptible := 0
      se := fun _ => { execStart := 0, sumExecRuntime := 0 }
      rt := fun _ => { timeout := 0, timeSlice := rrTimeslice K.toConfig }
      wrr := fun _ => { timeout := 0, timeSlice := 0 }
      schedExp := fun _ => 0
      groupRuntime := fun _ => 0
      rtTime := 0
      rtThrottled := false
      wrrThrottled := false }
  needResched := fun _ => false
  warnings := []
  wrrPicks := []

/-- The states that sequences of operations lead to from `s₀`, each performed when `ok` holds. -/
inductive Run (s₀ : Sys T E) (ok : Sys T E → Op T → Prop) : Sys T E → Prop where
  | init : Run s₀ ok s₀
  | step {s s' : Sys T E} {op : Op T} :
      Run s₀ ok s → ok s op → step K s op = .ok s' → Run s₀ ok s'

/-- The reachable states. -/
def Reachable (boot : Boot T) (s : Sys T E) : Prop := Run K (init K boot) Allowed s

/-- Perform operations one after the other, as long as `ok` holds. -/
def runOps (ok : Sys T E → Op T → Prop) [∀ s op, Decidable (ok s op)] (s : Sys T E) :
    List (Op T) → Option (Sys T E)
  | [] => some s
  | op :: ops =>
      if ok s op then
        match step K s op with
        | .ok s' => runOps ok s' ops
        | .error _ => none
      else none

variable {K}

lemma Run.mono {s₀ s : Sys T E} {ok ok' : Sys T E → Op T → Prop}
    (hok : ∀ s op, ok s op → ok' s op) (h : Run K s₀ ok s) : Run K s₀ ok' s := by
  induction h with
  | init => exact .init
  | step _ hop hstep ih => exact .step ih (hok _ _ hop) hstep

lemma Run.runOps {s₀ : Sys T E} {ok : Sys T E → Op T → Prop} [∀ s op, Decidable (ok s op)] :
    ∀ (ops : List (Op T)) {s s' : Sys T E}, Run K s₀ ok s → runOps K ok s ops = some s' →
      Run K s₀ ok s'
  | [], s, s', h, hrun => Option.some.inj hrun ▸ h
  | op :: ops, s, s', h, hrun => by
      rw [Sched.runOps] at hrun
      split_ifs at hrun with hok
      cases hstep : Sched.step K s op with
      | error e =>
          rw [hstep] at hrun
          exact absurd hrun (by simp)
      | ok s₁ =>
          rw [hstep] at hrun
          exact (h.step hok hstep).runOps ops hrun

/-- A property of the state that a list of operations leads to, by evaluation. -/
lemma exists_of_any {α : Type*} {P : α → Prop} [DecidablePred P] {o : Option α}
    (h : o.any (fun a => P a) = true) : ∃ a, o = some a ∧ P a := by
  rcases (Option.any_eq_true _ _).mp h with ⟨a, ha, hp⟩
  exact ⟨a, ha, of_decide_eq_true hp⟩

end Sched
