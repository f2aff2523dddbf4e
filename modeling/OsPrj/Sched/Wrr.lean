import OsPrj.Sched.Types

/-!
# wrr.c

The weighted round robin class: one queue, and a time slice that depends on the group of the task.
The functions on entities take the task that holds the entity; `list_add_leaf_wrr_rq` and the
other empty functions of the file are left out.
-/

namespace Sched

open ListHead

variable {T E : Type} [DecidableEq T]

/-- `MAX_PRIO` as `wrr.c` redefines it. -/
def wrrMaxPrio : ℤ := 500

/-- `WRR_TIMESLICE_FORE` -/
def wrrTimesliceFore (cfg : Config) : ℕ := 100 * cfg.hz / 1000

/-- `WRR_TIMESLICE_BACK` -/
def wrrTimesliceBack (cfg : Config) : ℕ := 10 * cfg.hz / 1000

def findGroup (groupPath : String) : Bool := groupPath == "/"

/-- The slice `task_tick_wrr` and `get_rr_interval_wrr` choose by group. -/
def wrrTimeslice (cfg : Config) (groupPath : String) : ℕ :=
  if findGroup groupPath then wrrTimesliceFore cfg else wrrTimesliceBack cfg

def onWrrRq (s : Sys T E) (p : T) : Bool := !listEmpty s.queues.links (.node (.wrr p))

def wrrRqThrottled (s : Sys T E) : Bool := s.acct.wrrThrottled

def updateCurrWrr (s : Sys T E) : Sys T E :=
  if (s.task s.core.curr).schedClass = .wrr then
    s.setSe s.core.curr fun se =>
      { se with sumExecRuntime := se.sumExecRuntime + deltaExec s, execStart := s.acct.clockTask }
  else s

def incWrrTasks (s : Sys T E) : Sys T E :=
  s.setQueues { s.queues with wrrNrRunning := s.queues.wrrNrRunning + 1 }

def decWrrTasks (s : Sys T E) : Sys T E :=
  (s.warnOn (s.queues.wrrNrRunning == 0) .decWrrTasks).setQueues
    { s.queues with wrrNrRunning := s.queues.wrrNrRunning - 1 }

/-- `__enqueue_wrr_entity` -/
def enqueueWrrEntityRaw (s : Sys T E) (p : T) (head : Bool) : Sys T E :=
  let links :=
    if head then listAdd s.queues.links (.node (.wrr p)) (.head .wrrQueue)
    else listAddTail s.queues.links (.node (.wrr p)) (.head .wrrQueue)
  incWrrTasks (s.setQueues { s.queues with links := links })

/-- `__dequeue_wrr_entity` -/
def dequeueWrrEntityRaw (s : Sys T E) (p : T) : Sys T E :=
  decWrrTasks (s.setQueues { s.queues with links := listDelInit s.queues.links (.node (.wrr p)) })

def dequeueWrrStack (s : Sys T E) (p : T) : Sys T E :=
  if onWrrRq s p then dequeueWrrEntityRaw s p else s

def enqueueWrrEntity (s : Sys T E) (p : T) (head : Bool) : Sys T E :=
  enqueueWrrEntityRaw (dequeueWrrStack s p) p head

/-- `dequeue_wrr_entity`; the loop after `dequeue_wrr_stack` tests a null pointer. -/
def dequeueWrrEntity (s : Sys T E) (p : T) : Sys T E := dequeueWrrStack s p

def incNrRunning (s : Sys T E) : Sys T E :=
  s.setQueues { s.queues with nrRunning := s.queues.nrRunning + 1 }

def decNrRunning (s : Sys T E) : Sys T E :=
  s.setQueues { s.queues with nrRunning := s.queues.nrRunning - 1 }

/-- `if (flags & ENQUEUE_WAKEUP) wrr_se->timeout = 0` -/
def resetTimeoutWrr (s : Sys T E) (p : T) (flags : EnqueueFlags) : Sys T E :=
  if flags.wakeup then s.setWrr p fun e => { e with timeout := 0 } else s

def enqueueTaskWrr (s : Sys T E) (p : T) (flags : EnqueueFlags) : Sys T E :=
  incNrRunning (enqueueWrrEntity (resetTimeoutWrr s p flags) p flags.head)

/-- `requeue_wrr_entity`, `requeue_task_wrr` -/
def requeueTaskWrr (s : Sys T E) (p : T) (head : Bool) : Sys T E :=
  if onWrrRq s p then
    let links :=
      if head then listMove s.queues.links (.node (.wrr p)) (.head .wrrQueue)
      else listMoveTail s.queues.links (.node (.wrr p)) (.head .wrrQueue)
    s.setQueues { s.queues with links := links }
  else s

def yieldTaskWrr (s : Sys T E) : Sys T E := requeueTaskWrr s s.core.curr false

def dequeueTaskWrr (s : Sys T E) (p : T) : Sys T E :=
  decNrRunning (dequeueWrrEntity (updateCurrWrr s) p)

def checkPreemptCurrWrr (s : Sys T E) (_p : T) : Sys T E := s

/-- `wrr_task_of` on what a `run_list` belongs to. -/
def wrrTaskOf : Entity T → Except Fault T
  | .wrr p => .ok p
  | .rt _ => .error .notAnEntity

/-- `pick_next_wrr_entity` and `wrr_task_of`. -/
def pickNextWrrEntity (s : Sys T E) : Except Fault T := do
  let e ← listEntryRunList (s.queues.links.next (.head .wrrQueue))
  wrrTaskOf e

/-- `pick_next_task_wrr`, `_pick_next_task_wrr` -/
def pickNextTaskWrr (s : Sys T E) : Except Fault (Option T × Sys T E) :=
  if s.queues.wrrNrRunning == 0 then .ok (none, s)
  else if wrrRqThrottled s then .ok (none, s)
  else do
    let p ← pickNextWrrEntity s
    let s := s.setSe p fun se => { se with execStart := s.acct.clockTask }
    pure (some p, { s with wrrPicks := s.wrrPicks ++ [p] })

def putPrevTaskWrr (s : Sys T E) (_p : T) : Sys T E := updateCurrWrr s

def setCurrTaskWrr (s : Sys T E) : Sys T E :=
  s.setSe s.core.curr fun se => { se with execStart := s.acct.clockTask }

/-- `p->cputime_expires.sched_exp = p->se.sum_exec_runtime` -/
def setSchedExp (s : Sys T E) (p : T) : Sys T E :=
  s.setAcct { s.acct with
    schedExp := Function.update s.acct.schedExp p (s.acct.se p).sumExecRuntime }

/-- `watchdog` of `wrr.c` -/
def watchdogWrr (cfg : Config) (s : Sys T E) (p : T) : Sys T E :=
  let soft := (s.task p).rlimitRttime
  let hard := (s.task p).rlimitMaxRttime
  if soft = 2 ^ cfg.wordSize - 1 then s
  else
    let count := watchdogCount cfg soft hard (s.acct.wrr p).timeout
    let s := s.setWrr p fun e => { e with timeout := count.1 }
    if count.2 then setSchedExp s p else s

/-- `--time_slice` on an `unsigned int`. -/
def decTimeSlice (n : ℕ) : ℕ := (n + (2 ^ 32 - 1)) % 2 ^ 32

/-- The time slice after `--p->wrr.time_slice`, where `0` was first read as the whole slice. -/
def nextTimeSliceWrr (cfg : Config) (s : Sys T E) (p : T) : ℕ :=
  decTimeSlice (if (s.acct.wrr p).timeSlice = 0 then wrrTimeslice cfg (s.task p).schedTaskGroup
    else (s.acct.wrr p).timeSlice)

/-- `++p->prio`, up to the `MAX_PRIO` of `wrr.c`. -/
def incPrioWrr (t : TaskStruct) : TaskStruct :=
  { t with prio := if t.prio + 1 > wrrMaxPrio then wrrMaxPrio else t.prio + 1 }

/-- The end of `task_tick_wrr`: a used up slice is filled, and the task goes to the end of the
queue if it is not alone there. -/
def expireWrr (cfg : Config) (s : Sys T E) (p : T) : Sys T E :=
  let s := s.setWrr p fun e =>
    { e with timeSlice := wrrTimeslice cfg (s.task p).schedTaskGroup }
  if s.queues.links.prev (.node (.wrr p)) ≠ s.queues.links.next (.node (.wrr p)) then
    (requeueTaskWrr s p false).reschedTask p
  else s

/-- `task_tick_wrr` after the accounting. -/
def sliceTickWrr (cfg : Config) (s : Sys T E) (p : T) : Sys T E :=
  if (s.task p).policy ≠ schedWrr then s
  else if 0 < nextTimeSliceWrr cfg s p then
    (s.setWrr p fun e => { e with timeSlice := nextTimeSliceWrr cfg s p }).setTask p incPrioWrr
  else expireWrr cfg s p

def taskTickWrr (cfg : Config) (s : Sys T E) (p : T) : Sys T E :=
  sliceTickWrr cfg (watchdogWrr cfg (updateCurrWrr s) p) p

def getRrIntervalWrr (cfg : Config) (s : Sys T E) (p : T) : ℕ :=
  if (s.task p).policy = schedWrr then wrrTimeslice cfg (s.task p).schedTaskGroup else 0

end Sched
