import OsPrj.Sched.Wrr

/-!
# rt.c

The real-time class on one processor without group scheduling: an array of queues indexed by
priority, with a bitmap of the nonempty ones, and the bandwidth control of the whole class.
-/

namespace Sched

open ListHead

variable {T E : Type} [DecidableEq T]

/-- `RR_TIMESLICE` -/
def rrTimeslice (cfg : Config) : ℕ := 100 * cfg.hz / 1000

/-- `RUNTIME_INF` -/
def runtimeInf : BitVec 64 := BitVec.allOnes 64

def onRtRq (s : Sys T E) (p : T) : Bool := !listEmpty s.queues.links (.node (.rt p))

def rtRqThrottled (s : Sys T E) : Bool := s.acct.rtThrottled

def rtSePrio (s : Sys T E) (p : T) : ℤ := (s.task p).prio

def schedRtRuntimeExceeded (cfg : Config) (s : Sys T E) : Bool × Sys T E :=
  if s.acct.rtThrottled then (rtRqThrottled s, s)
  else if cfg.rtPeriod ≤ cfg.rtRuntime then (false, s)
  else if cfg.rtRuntime = runtimeInf then (false, s)
  else if cfg.rtRuntime < s.acct.rtTime then
    if cfg.rtRuntime ≠ 0 then (true, s.setAcct { s.acct with rtThrottled := true })
    else (false, s.setAcct { s.acct with rtTime := 0 })
  else (false, s)

def accountGroupExecRuntime (s : Sys T E) (p : T) (delta : BitVec 64) : Sys T E :=
  let g := (s.task p).tgid
  s.setAcct { s.acct with
    groupRuntime := Function.update s.acct.groupRuntime g (s.acct.groupRuntime g + delta) }

/-- The end of `update_curr_rt`: the bandwidth of the class. -/
def chargeRtBandwidth (cfg : Config) (s : Sys T E) (delta : BitVec 64) : Sys T E :=
  if !cfg.rtBandwidthEnabled then s
  else if cfg.rtRuntime = runtimeInf then s
  else
    let r := schedRtRuntimeExceeded cfg
      (s.setAcct { s.acct with rtTime := s.acct.rtTime + delta })
    if r.1 then r.2.reschedTask s.core.curr else r.2

def updateCurrRt (cfg : Config) (s : Sys T E) : Sys T E :=
  if (s.task s.core.curr).schedClass = .rt then
    let s' := s.setSe s.core.curr fun se =>
      { se with sumExecRuntime := se.sumExecRuntime + deltaExec s, execStart := s.acct.clockTask }
    chargeRtBandwidth cfg (accountGroupExecRuntime s' s.core.curr (deltaExec s)) (deltaExec s)
  else s

def incRtTasks (s : Sys T E) (p : T) : Sys T E :=
  (s.warnOn (!rtPrio (rtSePrio s p)) .rtPrio).setQueues
    { s.queues with rtNrRunning := s.queues.rtNrRunning + 1 }

def decRtTasks (s : Sys T E) (p : T) : Sys T E :=
  let s' := s.warnOn (!rtPrio (rtSePrio s p)) .rtPrio
  (s'.warnOn (s.queues.rtNrRunning == 0) .decRtTasks).setQueues
    { s.queues with rtNrRunning := s.queues.rtNrRunning - 1 }

/-- `__enqueue_rt_entity` -/
def enqueueRtEntityRaw (s : Sys T E) (p : T) (head : Bool) : Sys T E :=
  let prio := rtSePrio s p
  let links :=
    if head then listAdd s.queues.links (.node (.rt p)) (.head (.queue prio))
    else listAddTail s.queues.links (.node (.rt p)) (.head (.queue prio))
  incRtTasks (s.setQueues { s.queues with
    links := links, bitmap := Function.update s.queues.bitmap prio true }) p

/-- `__dequeue_rt_entity` -/
def dequeueRtEntityRaw (s : Sys T E) (p : T) : Sys T E :=
  let prio := rtSePrio s p
  let links := listDelInit s.queues.links (.node (.rt p))
  let bitmap :=
    if listEmpty links (.head (.queue prio)) then Function.update s.queues.bitmap prio false
    else s.queues.bitmap
  decRtTasks (s.setQueues { s.queues with links := links, bitmap := bitmap }) p

def dequeueRtStack (s : Sys T E) (p : T) : Sys T E :=
  if onRtRq s p then dequeueRtEntityRaw s p else s

def enqueueRtEntity (s : Sys T E) (p : T) (head : Bool) : Sys T E :=
  enqueueRtEntityRaw (dequeueRtStack s p) p head

def dequeueRtEntity (s : Sys T E) (p : T) : Sys T E := dequeueRtStack s p

/-- `if (flags & ENQUEUE_WAKEUP) rt_se->timeout = 0` -/
def resetTimeoutRt (s : Sys T E) (p : T) (flags : EnqueueFlags) : Sys T E :=
  if flags.wakeup then s.setRt p fun e => { e with timeout := 0 } else s

def enqueueTaskRt (s : Sys T E) (p : T) (flags : EnqueueFlags) : Sys T E :=
  incNrRunning (enqueueRtEntity (resetTimeoutRt s p flags) p flags.head)

def dequeueTaskRt (cfg : Config) (s : Sys T E) (p : T) : Sys T E :=
  decNrRunning (dequeueRtEntity (updateCurrRt cfg s) p)

/-- `requeue_rt_entity`, `requeue_task_rt` -/
def requeueTaskRt (s : Sys T E) (p : T) (head : Bool) : Sys T E :=
  if onRtRq s p then
    let queue := .head (.queue (rtSePrio s p))
    let links :=
      if head then listMove s.queues.links (.node (.rt p)) queue
      else listMoveTail s.queues.links (.node (.rt p)) queue
    s.setQueues { s.queues with links := links }
  else s

def yieldTaskRt (s : Sys T E) : Sys T E := requeueTaskRt s s.core.curr false

def checkPreemptCurrRt (s : Sys T E) (p : T) : Sys T E :=
  if (s.task p).prio < (s.task s.core.curr).prio then s.reschedTask s.core.curr else s

/-- `sched_find_first_bit` on the bitmap with its delimiter. -/
def schedFindFirstBit (bitmap : ℤ → Bool) : ℕ :=
  ((List.range maxRtPrio.toNat).find? fun i : ℕ => bitmap i).getD maxRtPrio.toNat

/-- `rt_task_of` on what a `run_list` belongs to. -/
def rtTaskOf : Entity T → Except Fault T
  | .rt p => .ok p
  | .wrr _ => .error .notAnEntity

/-- `pick_next_rt_entity` and `rt_task_of`. -/
def pickNextRtEntity (s : Sys T E) : Except Fault T := do
  let idx := schedFindFirstBit s.queues.bitmap
  if maxRtPrio ≤ idx then .error .bug
  else
    let e ← listEntryRunList (s.queues.links.next (.head (.queue idx)))
    rtTaskOf e

/-- `pick_next_task_rt`, `_pick_next_task_rt` -/
def pickNextTaskRt (s : Sys T E) : Except Fault (Option T × Sys T E) :=
  if s.queues.rtNrRunning == 0 then .ok (none, s)
  else if rtRqThrottled s then .ok (none, s)
  else do
    let p ← pickNextRtEntity s
    pure (some p, s.setSe p fun se => { se with execStart := s.acct.clockTask })

def putPrevTaskRt (cfg : Config) (s : Sys T E) (_p : T) : Sys T E := updateCurrRt cfg s

def setCurrTaskRt (s : Sys T E) : Sys T E :=
  s.setSe s.core.curr fun se => { se with execStart := s.acct.clockTask }

/-- `watchdog` of `rt.c` -/
def watchdogRt (cfg : Config) (s : Sys T E) (p : T) : Sys T E :=
  let soft := (s.task p).rlimitRttime
  let hard := (s.task p).rlimitMaxRttime
  if soft = 2 ^ cfg.wordSize - 1 then s
  else
    let count := watchdogCount cfg soft hard (s.acct.rt p).timeout
    let s := s.setRt p fun e => { e with timeout := count.1 }
    if count.2 then setSchedExp s p else s

/-- The end of `task_tick_rt`: a used up slice is filled, and the task goes to the end of its
queue if it is not alone there. -/
def expireRt (cfg : Config) (s : Sys T E) (p : T) : Sys T E :=
  let s := s.setRt p fun e => { e with timeSlice := rrTimeslice cfg }
  if s.queues.links.prev (.node (.rt p)) ≠ s.queues.links.next (.node (.rt p)) then
    (requeueTaskRt s p false).reschedTask p
  else s

/-- `task_tick_rt` after the accounting. -/
def sliceTickRt (cfg : Config) (s : Sys T E) (p : T) : Sys T E :=
  if (s.task p).policy ≠ schedRr then s
  else if decTimeSlice (s.acct.rt p).timeSlice ≠ 0 then
    s.setRt p fun e => { e with timeSlice := decTimeSlice e.timeSlice }
  else expireRt cfg s p

def taskTickRt (cfg : Config) (s : Sys T E) (p : T) : Sys T E :=
  sliceTickRt cfg (watchdogRt cfg (updateCurrRt cfg s) p) p

def getRrIntervalRt (cfg : Config) (s : Sys T E) (p : T) : ℕ :=
  if (s.task p).policy = schedRr then rrTimeslice cfg else 0

def switchedToRt (s : Sys T E) (p : T) : Sys T E :=
  if (s.task p).onRq && s.core.curr ≠ p then
    if (s.task p).prio < (s.task s.core.curr).prio then s.reschedTask s.core.curr else s
  else s

def prioChangedRt (s : Sys T E) (p : T) (oldprio : ℤ) : Sys T E :=
  if !(s.task p).onRq then s
  else if s.core.curr = p then
    if oldprio < (s.task p).prio then s.reschedTask p else s
  else if (s.task p).prio < (s.task s.core.curr).prio then s.reschedTask s.core.curr
  else s

def schedRtRqEnqueue (s : Sys T E) : Sys T E :=
  if s.queues.rtNrRunning ≠ 0 then s.reschedTask s.core.curr else s

/-- The part of `do_sched_rt_period_timer` that ends the throttling. -/
def rtUnthrottle (s : Sys T E) : Sys T E :=
  let s' := s.setAcct { s.acct with
    rtThrottled := false
    skipClockUpdate :=
      if s.queues.rtNrRunning ≠ 0 ∧ s.core.curr = s.core.idle then -1 else s.acct.skipClockUpdate }
  schedRtRqEnqueue s'

/-- `do_sched_rt_period_timer`, for `overrun` elapsed periods. -/
def doSchedRtPeriodTimer (cfg : Config) (s : Sys T E) (overrun : BitVec 64) : Sys T E :=
  if s.acct.rtTime ≠ 0 then
    let dec := overrun * cfg.rtRuntime
    let time := s.acct.rtTime - (if s.acct.rtTime < dec then s.acct.rtTime else dec)
    let s' := s.setAcct { s.acct with rtTime := time }
    if s.acct.rtThrottled && time < cfg.rtRuntime then rtUnthrottle s' else s'
  else if s.queues.rtNrRunning ≠ 0 then
    if !rtRqThrottled s then schedRtRqEnqueue s else s
  else s

end Sched
