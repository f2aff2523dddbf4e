import OsPrj.Sched.Rt

/-!
# core.c: the paths under the run queue lock

Calls through `p->sched_class` are matches on the class; a class that is not in the repository
goes to its hook in `Kernel`.
-/

namespace Sched

open ListHead

variable {T E : Type} [DecidableEq T] (K : Kernel T E)

/-! ## The class hooks -/

def enqueueTask (s : Sys T E) (p : T) (flags : EnqueueFlags) : Sys T E :=
  let s := updateRqClock K s
  match (s.task p).schedClass with
  | .rt => enqueueTaskRt s p flags
  | .wrr => enqueueTaskWrr s p flags
  | c =>
      let r := K.enqueueOther c s p flags
      (s.setQueues { s.queues with nrRunning := r.2 }).applyHook r.1

def dequeueTask (s : Sys T E) (p : T) (sleep : Bool) : Sys T E :=
  let s := updateRqClock K s
  match (s.task p).schedClass with
  | .rt => dequeueTaskRt K.toConfig s p
  | .wrr => dequeueTaskWrr s p
  | c =>
      let r := K.dequeueOther c s p sleep
      (s.setQueues { s.queues with nrRunning := r.2 }).applyHook r.1

/-- `curr->sched_class->yield_task` -/
def yieldTask (s : Sys T E) : Sys T E :=
  match (s.task s.core.curr).schedClass with
  | .rt => yieldTaskRt s
  | .wrr => yieldTaskWrr s
  | c => s.applyHook (K.yieldOther c s)

/-- `p->sched_class->put_prev_task` -/
def classPutPrevTask (s : Sys T E) (p : T) : Sys T E :=
  match (s.task p).schedClass with
  | .rt => putPrevTaskRt K.toConfig s p
  | .wrr => putPrevTaskWrr s p
  | c => s.applyHook (K.putPrevOther c s p)

/-- `p->sched_class->set_curr_task`, for `p` the current task -/
def classSetCurrTask (s : Sys T E) : Sys T E :=
  match (s.task s.core.curr).schedClass with
  | .rt => setCurrTaskRt s
  | .wrr => setCurrTaskWrr s
  | c => s.applyHook (K.setCurrOther c s)

/-- `class->pick_next_task` -/
def classPickNextTask (c : SchedClass) (s : Sys T E) : Except Fault (Option T × Sys T E) :=
  match c with
  | .rt => pickNextTaskRt s
  | .wrr => pickNextTaskWrr s
  | c => .ok ((K.pickOther c s).1, s.applyHook (K.pickOther c s).2)

/-- `curr->sched_class->task_tick` -/
def classTaskTick (s : Sys T E) : Sys T E :=
  match (s.task s.core.curr).schedClass with
  | .rt => taskTickRt K.toConfig s s.core.curr
  | .wrr => taskTickWrr K.toConfig s s.core.curr
  | c => s.applyHook (K.taskTickOther c s s.core.curr)

/-- `curr->sched_class->check_preempt_curr` -/
def classCheckPreemptCurr (s : Sys T E) (p : T) : Sys T E :=
  match (s.task s.core.curr).schedClass with
  | .rt => checkPreemptCurrRt s p
  | .wrr => checkPreemptCurrWrr s p
  | c => s.applyHook (K.checkPreemptOther c s p)

/-- `prev_class->switched_from`; on one processor `rt` has none, that of `wrr` is empty. -/
def switchedFrom (c : SchedClass) (s : Sys T E) (p : T) : Sys T E :=
  match c with
  | .rt | .wrr => s
  | c => s.applyHook (K.switchedFromOther c s p)

/-- `p->sched_class->switched_to`; that of `wrr` is empty. -/
def switchedTo (s : Sys T E) (p : T) : Sys T E :=
  match (s.task p).schedClass with
  | .rt => switchedToRt s p
  | .wrr => s
  | c => s.applyHook (K.switchedToOther c s p)

/-- `p->sched_class->prio_changed`; that of `wrr` is empty. -/
def prioChanged (s : Sys T E) (p : T) (oldprio : ℤ) : Sys T E :=
  match (s.task p).schedClass with
  | .rt => prioChangedRt s p oldprio
  | .wrr => s
  | c => s.applyHook (K.prioChangedOther c s p oldprio)

/-! ## Waking and preempting -/

def taskContributesToLoad (t : TaskStruct) : Bool :=
  (t.state &&& taskUninterruptible) != 0 && !t.frozen

/-- `rq->nr_uninterruptible += n`, if the task contributes to load. -/
def addUninterruptible (s : Sys T E) (p : T) (n : ℤ) : Sys T E :=
  if taskContributesToLoad (s.task p) then
    s.setAcct { s.acct with nrUninterruptible := s.acct.nrUninterruptible + n }
  else s

def activateTask (s : Sys T E) (p : T) (flags : EnqueueFlags) : Sys T E :=
  enqueueTask K (addUninterruptible s p (-1)) p flags

def deactivateTask (s : Sys T E) (p : T) (sleep : Bool) : Sys T E :=
  dequeueTask K (addUninterruptible s p 1) p sleep

/-- The walk of `check_preempt_curr` over the classes: whether `c` comes before `currClass`. -/
def classPreempts (c currClass : SchedClass) : List SchedClass → Bool
  | [] => false
  | d :: rest =>
      if d = currClass then false
      else if d = c then true
      else classPreempts c currClass rest

/-- The first part of `check_preempt_curr`: by the class, or by the order of the classes. -/
def preemptByClass (s : Sys T E) (p : T) : Sys T E :=
  if (s.task p).schedClass = (s.task s.core.curr).schedClass then classCheckPreemptCurr K s p
  else if classPreempts (s.task p).schedClass (s.task s.core.curr).schedClass forEachClass then
    s.reschedTask s.core.curr
  else s

def checkPreemptCurr (s : Sys T E) (p : T) : Sys T E :=
  let s := preemptByClass K s p
  if (s.task s.core.curr).onRq && s.needResched s.core.curr then
    s.setAcct { s.acct with skipClockUpdate := 1 }
  else s

def checkClassChanged (s : Sys T E) (p : T) (prevClass : SchedClass) (oldprio : ℤ) : Sys T E :=
  if prevClass ≠ (s.task p).schedClass then switchedTo K (switchedFrom K prevClass s p) p
  else if oldprio ≠ (s.task p).prio then prioChanged K s p oldprio
  else s

def ttwuActivate (s : Sys T E) (p : T) : Sys T E :=
  (activateTask K s p { wakeup := true, head := false }).setTask p fun t => { t with onRq := true }

def ttwuDoWakeup (s : Sys T E) (p : T) : Sys T E :=
  (checkPreemptCurr K s p).setTask p fun t => { t with state := taskRunning }

/-- `try_to_wake_up`: `ttwu_remote` for a task that is still queued, else `ttwu_queue`. -/
def tryToWakeUp (s : Sys T E) (p : T) (state : ℕ) : Sys T E :=
  if (s.task p).state &&& state = 0 then s
  else if (s.task p).onRq then ttwuDoWakeup K s p
  else ttwuDoWakeup K (ttwuActivate K s p) p

def tryToWakeUpLocal (s : Sys T E) (p : T) : Sys T E :=
  if p = s.core.curr then s.warnOn true .wakeCurrent
  else if (s.task p).state &&& taskNormal = 0 then s
  else if (s.task p).onRq then ttwuDoWakeup K s p
  else ttwuDoWakeup K (ttwuActivate K s p) p

def wakeUpNewTask (s : Sys T E) (p : T) : Sys T E :=
  let s := (activateTask K s p { wakeup := false, head := false }).setTask p fun t =>
    { t with onRq := true }
  checkPreemptCurr K s p

/-! ## Forking -/

/-- `__normal_prio`, `normal_prio` -/
def normalPrio (t : TaskStruct) : ℤ :=
  if rtPolicy t.policy then maxRtPrio - 1 - t.rtPriority else t.staticPrio

def prioToWeight : List ℕ :=
  [88761, 71755, 56483, 46273, 36291, 29154, 23254, 18705, 14949, 11916, 9548, 7620, 6100, 4904,
    3906, 3121, 2501, 1991, 1586, 1277, 1024, 820, 655, 526, 423, 335, 272, 215, 172, 137, 110, 87,
    70, 56, 45, 36, 29, 23, 18, 15]

def prioToWmult : List ℕ :=
  [48388, 59856, 76040, 92818, 118348, 147320, 184698, 229616, 287308, 360437, 449829, 563644,
    704093, 875809, 1099582, 1376151, 1717300, 2157191, 2708050, 3363326, 4194304, 5237765,
    6557202, 8165337, 10153587, 12820798, 15790321, 19976592, 24970740, 31350126, 39045157,
    49367440, 61356676, 76695844, 95443717, 119304647, 148102320, 186737708, 238609294, 286331153]

def setLoadWeight (t : TaskStruct) : TaskStruct :=
  if t.policy = schedIdle then { t with load := { weight := 3, invWeight := 1431655765 } }
  else
    let prio := (t.staticPrio - maxRtPrio).toNat
    { t with load := { weight := prioToWeight.getD prio 0, invWeight := prioToWmult.getD prio 0 } }

/-- The fields `sched_fork` writes on a child that starts as a copy `t` of its parent, whose
`normal_prio` is given. -/
def schedForkFields (t : TaskStruct) (parentNormalPrio : ℤ) : TaskStruct :=
  let t := { t with state := taskRunning, prio := parentNormalPrio }
  let t :=
    if t.schedResetOnFork then
      let t :=
        if rtPolicy t.policy then
          { t with policy := schedNormal, staticPrio := niceToPrio 0, rtPriority := 0 }
        else if prioToNice t.staticPrio < 0 then { t with staticPrio := niceToPrio 0 }
        else t
      let t := setLoadWeight { t with prio := t.staticPrio, normalPrio := t.staticPrio }
      { t with schedResetOnFork := false }
    else t
  if !rtPrio t.prio then { t with schedClass := .fair } else t

/-- `dup_task_struct`, and the entry of the child in the task list: the child `p` is a copy of the
current task, without PI waiters and `TIF_NEED_RESCHED`. -/
def dupTaskStruct (s : Sys T E) (p : T) : Sys T E :=
  { s with
    core := { s.core with
      task := Function.update s.core.task p { s.task s.core.curr with topPiWaiter := none }
      tasklist := p :: s.core.tasklist }
    acct := { s.acct with
      rt := Function.update s.acct.rt p (s.acct.rt s.core.curr)
      wrr := Function.update s.acct.wrr p (s.acct.wrr s.core.curr) }
    needResched := Function.update s.needResched p false }

/-- `__sched_fork` -/
def schedForkRaw (s : Sys T E) (p : T) : Sys T E :=
  let links := initListHead (initListHead s.queues.links (.node (.rt p))) (.node (.wrr p))
  ((s.setTask p fun t => { t with onRq := false }).setSe p fun _ =>
    { execStart := 0, sumExecRuntime := 0 }).setQueues { s.queues with links := links }

/-- `sched_fork`, on a child that is copied from the current task. -/
def schedFork (s : Sys T E) (p : T) : Sys T E :=
  let normalPrio := (s.task s.core.curr).normalPrio
  let s := (schedForkRaw (dupTaskStruct s p) p).setTask p fun t => schedForkFields t normalPrio
  -- the fair class alone has a task_fork
  if (s.task p).schedClass = .fair then s.applyHook (K.taskForkOther .fair s p) else s

end Sched
