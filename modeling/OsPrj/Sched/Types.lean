import OsPrj.Lib.ListHead
import Mathlib.Data.Int.Notation

/-!
# The run queue of one processor

The data of `Prj2/kernel/sched` on a uniprocessor build (`CONFIG_SMP` and `CONFIG_RT_GROUP_SCHED`
unset).  `Sys` is grouped by who writes it:

* `Core` — task structures and `rq->curr`, written by `core.c` (and `p->prio` by the WRR tick);
* `Queues` — the list words and the counters, written by enqueue and dequeue;
* `Acct` — clocks, time slices and execution times.

`stop_task.c`, `fair.c` and `idle_task.c` are not in the repository.  Their hooks are the
functions of `Kernel`, on a state `E` of their own.
-/

namespace Sched

open ListHead

/-! ## Constants -/

def schedNormal : ℤ := 0
def schedFifo : ℤ := 1
def schedRr : ℤ := 2
def schedBatch : ℤ := 3
def schedIdle : ℤ := 5
def schedWrr : ℤ := 6

def maxRtPrio : ℤ := 100
def maxUserRtPrio : ℤ := 100
def maxPrio : ℤ := maxRtPrio + 40

def niceToPrio (nice : ℤ) : ℤ := maxRtPrio + nice + 20
def prioToNice (prio : ℤ) : ℤ := prio - maxRtPrio - 20

def taskRunning : ℕ := 0
def taskInterruptible : ℕ := 1
def taskUninterruptible : ℕ := 2
def taskNormal : ℕ := 3

def rtPrio (prio : ℤ) : Bool := decide (prio < maxRtPrio)

def rtPolicy (policy : ℤ) : Bool := decide (policy = schedFifo ∨ policy = schedRr)

/-! ## Tasks -/

/-- The scheduling classes, by the variable that holds them. -/
inductive SchedClass where
  | stop
  | rt
  | wrr
  | fair
  | idle
  deriving DecidableEq

/-- `for_each_class`: from `sched_class_highest` along `next`. -/
def forEachClass : List SchedClass := [.stop, .rt, .wrr, .fair, .idle]

/-- How far a class is from the end of `for_each_class`. -/
def SchedClass.rank : SchedClass → ℕ
  | .stop => 4
  | .rt => 3
  | .wrr => 2
  | .fair => 1
  | .idle => 0

/-- `struct load_weight` -/
structure LoadWeight where
  weight : ℕ
  invWeight : ℕ

/-- What `struct task_struct` says about scheduling, besides the entities.  `schedTaskGroup` is
the path of `sched_task_group`'s cgroup, `topPiWaiter` the priority of `task_top_pi_waiter`, the
four limits are those of `task_rlimit` and `task_rlimit_max`. -/
structure TaskStruct where
  state : ℕ
  onRq : Bool
  policy : ℤ
  prio : ℤ
  staticPrio : ℤ
  normalPrio : ℤ
  rtPriority : ℤ
  schedClass : SchedClass
  schedResetOnFork : Bool
  schedTaskGroup : String
  tgid : ℕ
  hasMm : Bool
  load : LoadWeight
  topPiWaiter : Option ℤ
  frozen : Bool
  wqWorker : Bool
  rlimitRttime : ℕ
  rlimitMaxRttime : ℕ
  rlimitRtprio : ℕ
  rlimitNice : ℕ

/-- `struct sched_entity`: the part that all classes use. -/
structure SchedEntity where
  execStart : BitVec 64
  sumExecRuntime : BitVec 64

/-- `struct sched_rt_entity`, without its `run_list`. -/
structure SchedRtEntity where
  timeout : ℕ
  timeSlice : ℕ

/-- `struct sched_wrr_entity`, without its `run_list`. -/
structure SchedWrrEntity where
  timeout : ℕ
  timeSlice : ℕ

/-- The owners of a `run_list`. -/
inductive Entity (T : Type) where
  | rt (p : T)
  | wrr (p : T)
  deriving DecidableEq

/-- The heads of the queues: `rq->wrr.wrr_queue` and `rq->rt.active.queue + i`. -/
inductive QueueHead where
  | wrrQueue
  | queue (i : ℤ)
  deriving DecidableEq

/-! ## The state -/

/-- The `WARN_ON`s of the modelled functions. -/
inductive Warning where
  /-- `inc_rt_tasks`, `dec_rt_tasks`: `!rt_prio(prio)` -/
  | rtPrio
  /-- `dec_rt_tasks`: `!rt_rq->rt_nr_running` -/
  | decRtTasks
  /-- `dec_wrr_tasks`: `!wrr_rq->wrr_nr_running` -/
  | decWrrTasks
  /-- `rt_mutex_setprio`: the idle task is boosted while it is not running -/
  | boostIdle
  /-- `try_to_wake_up_local`: `p == current` -/
  | wakeCurrent
  deriving DecidableEq

/-- Where execution stops. -/
inductive Fault where
  /-- `BUG` and `BUG_ON` -/
  | bug
  /-- a list head read as an entity, or an entity as one of another kind -/
  | notAnEntity
  deriving DecidableEq

structure Core (T : Type) where
  task : T → TaskStruct
  curr : T
  idle : T
  stop : Option T
  /-- the tasks that can be found by pid: all but the boot idle task -/
  tasklist : List T

structure Queues (T : Type) where
  links : Links (Node QueueHead (Entity T))
  nrRunning : ℤ
  rtNrRunning : ℤ
  wrrNrRunning : ℤ
  bitmap : ℤ → Bool

structure Acct (T : Type) where
  clock : BitVec 64
  clockTask : BitVec 64
  skipClockUpdate : ℤ
  /-- how often `sched_clock_cpu` has been read -/
  reads : ℕ
  nrUninterruptible : ℤ
  se : T → SchedEntity
  rt : T → SchedRtEntity
  wrr : T → SchedWrrEntity
  /-- `cputime_expires.sched_exp` -/
  schedExp : T → BitVec 64
  /-- what `account_group_exec_runtime` has added, by thread group -/
  groupRuntime : ℕ → BitVec 64
  rtTime : BitVec 64
  rtThrottled : Bool
  wrrThrottled : Bool

/-- The state of the scheduler.  `wrrPicks` records what `pick_next_task_wrr` has returned, the
latest last; no function reads it, nor the `warnings`. -/
structure Sys (T E : Type) where
  core : Core T
  queues : Queues T
  /-- the state of the classes that are not in the repository -/
  other : E
  acct : Acct T
  needResched : T → Bool
  warnings : List Warning
  wrrPicks : List T

/-! ## The parts that are parameters -/

/-- The flags of `enqueue_task`. -/
structure EnqueueFlags where
  wakeup : Bool
  head : Bool
  deriving DecidableEq

/-- What a hook of `stop_task.c`, `fair.c` or `idle_task.c` does: its own state, the clock and the
execution times, and whether it calls `resched_task(rq->curr)`. -/
structure HookResult (T E : Type) where
  other : E
  acct : Acct T
  resched : Bool

/-- The configuration of the build and of the machine. -/
structure Config where
  hz : ℕ
  hz_pos : 0 < hz
  /-- the time slices of `sched.h` are `int` expressions -/
  hz_fits : 100 * hz < 2 ^ 31
  /-- the bits of an `unsigned long` -/
  wordSize : ℕ
  /-- the readings of `sched_clock_cpu` -/
  schedClock : ℕ → BitVec 64
  /-- `rt_bandwidth_enabled` -/
  rtBandwidthEnabled : Bool
  rtPeriod : BitVec 64
  rtRuntime : BitVec 64

/-- The kernel around `core.c`, `rt.c` and `wrr.c`: its configuration, and the classes that are
not in the repository.  Their enqueue and dequeue hooks also return `rq->nr_running`. -/
structure Kernel (T E : Type) extends Config where
  otherInit : E
  /-- `rq->cfs.h_nr_running` -/
  hNrRunning : E → ℤ
  enqueueOther : SchedClass → Sys T E → T → EnqueueFlags → HookResult T E × ℤ
  /-- the flag is `DEQUEUE_SLEEP` -/
  dequeueOther : SchedClass → Sys T E → T → Bool → HookResult T E × ℤ
  yieldOther : SchedClass → Sys T E → HookResult T E
  checkPreemptOther : SchedClass → Sys T E → T → HookResult T E
  pickOther : SchedClass → Sys T E → Option T × HookResult T E
  putPrevOther : SchedClass → Sys T E → T → HookResult T E
  setCurrOther : SchedClass → Sys T E → HookResult T E
  taskTickOther : SchedClass → Sys T E → T → HookResult T E
  taskForkOther : SchedClass → Sys T E → T → HookResult T E
  switchedFromOther : SchedClass → Sys T E → T → HookResult T E
  switchedToOther : SchedClass → Sys T E → T → HookResult T E
  prioChangedOther : SchedClass → Sys T E → T → ℤ → HookResult T E
  taskMoveGroupOther : SchedClass → Sys T E → T → Bool → HookResult T E

/-! ## Small steps on the state -/

section

variable {T E : Type} [DecidableEq T]

namespace Sys

/-- The task structure of `p`. -/
abbrev task (s : Sys T E) (p : T) : TaskStruct := s.core.task p

/-- Write fields of the task structure of `p`. -/
def setTask (s : Sys T E) (p : T) (f : TaskStruct → TaskStruct) : Sys T E :=
  { s with core := { s.core with task := Function.update s.core.task p (f (s.core.task p)) } }

/-- Write fields of `p->se`. -/
def setSe (s : Sys T E) (p : T) (f : SchedEntity → SchedEntity) : Sys T E :=
  { s with acct := { s.acct with se := Function.update s.acct.se p (f (s.acct.se p)) } }

/-- Write fields of `p->rt`. -/
def setRt (s : Sys T E) (p : T) (f : SchedRtEntity → SchedRtEntity) : Sys T E :=
  { s with acct := { s.acct with rt := Function.update s.acct.rt p (f (s.acct.rt p)) } }

/-- Write fields of `p->wrr`. -/
def setWrr (s : Sys T E) (p : T) (f : SchedWrrEntity → SchedWrrEntity) : Sys T E :=
  { s with acct := { s.acct with wrr := Function.update s.acct.wrr p (f (s.acct.wrr p)) } }

/-- `resched_task`, `set_tsk_need_resched` -/
def reschedTask (s : Sys T E) (p : T) : Sys T E :=
  { s with needResched := Function.update s.needResched p true }

/-- `clear_tsk_need_resched` -/
def clearNeedResched (s : Sys T E) (p : T) : Sys T E :=
  { s with needResched := Function.update s.needResched p false }

/-- `WARN_ON(cond)` -/
def warnOn (s : Sys T E) (cond : Bool) (w : Warning) : Sys T E :=
  if cond then { s with warnings := s.warnings ++ [w] } else s

/-- Run a hook of another class.  It does not write what belongs to `rt.c` and `wrr.c`. -/
def applyHook (s : Sys T E) (r : HookResult T E) : Sys T E :=
  let s' := { s with
    other := r.other
    acct := { s.acct with
      clock := r.acct.clock
      clockTask := r.acct.clockTask
      skipClockUpdate := r.acct.skipClockUpdate
      reads := r.acct.reads
      se := r.acct.se
      groupRuntime := r.acct.groupRuntime } }
  if r.resched then s'.reschedTask s.core.curr else s'

/-- Write the clocks and counters. -/
def setAcct (s : Sys T E) (a : Acct T) : Sys T E := { s with acct := a }

/-- Write the queues. -/
def setQueues (s : Sys T E) (q : Queues T) : Sys T E := { s with queues := q }

end Sys

/-- `update_rq_clock` and `update_rq_clock_task`, without interrupt time accounting. -/
def updateRqClock (K : Kernel T E) (s : Sys T E) : Sys T E :=
  if 0 < s.acct.skipClockUpdate then s
  else
    let delta := K.schedClock s.acct.reads - s.acct.clock
    s.setAcct { s.acct with reads := s.acct.reads + 1, clock := s.acct.clock + delta,
                            clockTask := s.acct.clockTask + delta }

/-- `rq->clock_task - curr->se.exec_start`, or `0` if that is negative as an `s64`. -/
def deltaExec (s : Sys T E) : BitVec 64 :=
  let delta := s.acct.clockTask - (s.acct.se s.core.curr).execStart
  if delta.msb then 0 else delta

/-- The two functions `watchdog`: the new `timeout` and whether it is past the limit. -/
def watchdogCount (cfg : Config) (soft hard timeout : ℕ) : ℕ × Bool :=
  let timeout := (timeout + 1) % 2 ^ cfg.wordSize
  let usec := 1000000 / cfg.hz
  let next := (min soft hard + usec - 1) % 2 ^ cfg.wordSize / usec
  (timeout, decide (next < timeout))

/-- `list_entry(pos, …, run_list)` -/
def listEntryRunList : Node QueueHead (Entity T) → Except Fault (Entity T)
  | .node e => .ok e
  | .head _ => .error .notAnEntity

end

end Sched
