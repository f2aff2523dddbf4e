import OsPrj.Sched.Ops

/-!
# Wait queues and completions

`__wake_up_common` of `core.c`, and the completions built on it.  A section under the lock of the
queue is one step; what a waiter does between two of them, `schedule_timeout`, is left to the runs:
it comes back from there when somebody has woken it.

`add_wait_queue` and its variants keep the queue as a list; `T` are the tasks.
-/

namespace Wait

open Sched (taskRunning taskInterruptible taskUninterruptible taskNormal)

/-- `TASK_WAKEKILL` -/
def taskWakekill : ℕ := 128

/-- `TASK_KILLABLE` -/
def taskKillable : ℕ := taskWakekill ||| taskUninterruptible

/-- `-ERESTARTSYS` -/
def erestartsys : ℤ := -512

/-- `wait_queue_t`; `exclusive` is `WQ_FLAG_EXCLUSIVE`. -/
structure WaitQueueEntry (T : Type) where
  task : T
  exclusive : Bool

section

variable {T S : Type}

/-- `__wake_up_common`, where `func` is the function of the entries. -/
def wakeUpCommon (func : WaitQueueEntry T → S → Bool × S) : List (WaitQueueEntry T) → ℤ → S → S
  | [], _, s => s
  | curr :: rest, nrExclusive, s =>
      let r := func curr s
      if r.1 && curr.exclusive then
        if nrExclusive - 1 = 0 then r.2 else wakeUpCommon func rest (nrExclusive - 1) r.2
      else wakeUpCommon func rest nrExclusive r.2

variable [DecidableEq T]

/-- `default_wake_function`, where only the states of the tasks are looked at: `try_to_wake_up`
returns whether the state is one of `mode`, and then it is `TASK_RUNNING`. -/
def defaultWakeFunction (mode : ℕ) (curr : WaitQueueEntry T) (state : T → ℕ) : Bool × (T → ℕ) :=
  if state curr.task &&& mode = 0 then (false, state)
  else (true, Function.update state curr.task taskRunning)

/-- What is pending of a task: `signal_pending` and `__fatal_signal_pending`. -/
inductive Signal where
  | none
  | pending
  | fatal

/-- `signal_pending_state` -/
def signalPendingState (state : ℕ) : Signal → Bool
  | .none => false
  | .pending => state &&& taskInterruptible != 0
  | .fatal => state &&& (taskInterruptible ||| taskWakekill) != 0

/-- `struct completion` -/
structure Completion (T : Type) where
  done : BitVec 32
  wait : List (WaitQueueEntry T)

/-- Where a task is. -/
inductive Pc where
  /-- not in a call; `ret` is what the last one has returned -/
  | out (ret : ℤ)
  /-- in `schedule_timeout(timeout)` of `do_wait_for_common(x, timeout, state)` -/
  | waiting (timeout : ℤ) (state : ℕ)

/-- A completion and the tasks that use it.  What has happened is counted: `completed` and
`completedAll` the calls of `complete` and `complete_all`, `taken` the executions of `x->done--`. -/
structure St (T : Type) where
  x : Completion T
  state : T → ℕ
  pc : T → Pc
  completed : ℕ
  completedAll : ℕ
  taken : ℕ

/-- `x->done--` and `return timeout ?: 1`. -/
def take (s : St T) (t : T) (timeout : ℤ) : St T :=
  { s with
    x := ⟨s.x.done - 1, s.x.wait⟩
    pc := Function.update s.pc t (.out (if timeout = 0 then 1 else timeout))
    taken := s.taken + 1 }

/-- `do_wait_for_common` after its loop, from `__remove_wait_queue` on. -/
def leaveLoop (s : St T) (t : T) (timeout : ℤ) : St T :=
  let s := { s with x := ⟨s.x.done, s.x.wait.filter fun e => e.task ≠ t⟩ }
  if s.x.done = 0 then { s with pc := Function.update s.pc t (.out timeout) }
  else take s t timeout

/-- The body of the loop of `do_wait_for_common`, up to `schedule_timeout`. -/
def loopBody (s : St T) (t : T) (timeout : ℤ) (state : ℕ) (signal : Signal) : St T :=
  if signalPendingState state signal then leaveLoop s t erestartsys
  else
    { s with
      state := Function.update s.state t state
      pc := Function.update s.pc t (.waiting timeout state) }

/-- `do_wait_for_common(x, timeout, state)`, up to `schedule_timeout`. -/
def doWaitForCommon (s : St T) (t : T) (timeout : ℤ) (state : ℕ) (signal : Signal) : St T :=
  if s.x.done = 0 then
    -- `__add_wait_queue_tail_exclusive`
    loopBody { s with x := ⟨s.x.done, s.x.wait ++ [⟨t, true⟩]⟩ } t timeout state signal
  else take s t timeout

/-- `do_wait_for_common(x, timeout, state)` after `schedule_timeout`, which has returned
`timeout`. -/
def resumeWait (s : St T) (t : T) (timeout : ℤ) (state : ℕ) (signal : Signal) : St T :=
  if s.x.done = 0 ∧ timeout ≠ 0 then loopBody s t timeout state signal
  else leaveLoop s t timeout

/-- `complete` -/
def complete (s : St T) : St T :=
  { s with
    x := ⟨s.x.done + 1, s.x.wait⟩
    state := wakeUpCommon (defaultWakeFunction taskNormal) s.x.wait 1 s.state
    completed := s.completed + 1 }

/-- `complete_all`; `UINT_MAX/2` is `2 ^ 31 - 1`. -/
def completeAll (s : St T) : St T :=
  { s with
    x := ⟨s.x.done + 0x7fffffff, s.x.wait⟩
    state := wakeUpCommon (defaultWakeFunction taskNormal) s.x.wait 0 s.state
    completedAll := s.completedAll + 1 }

/-- `try_wait_for_completion` -/
def tryWaitForCompletion (s : St T) : Bool × St T :=
  if s.x.done = 0 then (false, s)
  else (true, { s with x := ⟨s.x.done - 1, s.x.wait⟩, taken := s.taken + 1 })

/-- `completion_done` -/
def completionDone (s : St T) : Bool := s.x.done != 0

/-! ## Runs -/

inductive Op (T : Type) where
  | wait (t : T) (timeout : ℤ) (state : ℕ) (signal : Signal)
  /-- `schedule_timeout` has returned `timeout` -/
  | resume (t : T) (timeout : ℤ) (signal : Signal)
  /-- a timer, a signal or anybody else wakes the task -/
  | wakeUp (t : T)
  | complete
  | completeAll
  | tryWait

/-- Perform one operation. -/
def step (s : St T) : Op T → St T
  | .wait t timeout state signal => doWaitForCommon s t timeout state signal
  | .resume t timeout signal =>
      match s.pc t with
      | .waiting _ state => resumeWait s t timeout state signal
      | .out _ => s
  | .wakeUp t => { s with state := Function.update s.state t taskRunning }
  | .complete => complete s
  | .completeAll => completeAll s
  | .tryWait => (tryWaitForCompletion s).2

/-- When an operation is performed.  A waiter uses one of the states that `TASK_NORMAL` wakes, and
goes on when it is running again. -/
def Allowed (s : St T) : Op T → Prop
  | .wait t timeout state _ =>
      (∀ n st, s.pc t ≠ .waiting n st) ∧ 0 ≤ timeout ∧ state &&& taskNormal ≠ 0
  | .resume t timeout _ => (∃ n st, s.pc t = .waiting n st) ∧ s.state t = taskRunning ∧ 0 ≤ timeout
  | .wakeUp _ | .complete | .completeAll | .tryWait => True

/-- The state after `init_completion`. -/
def init : St T where
  x := ⟨0, []⟩
  state := fun _ => taskRunning
  pc := fun _ => .out 0
  completed := 0
  completedAll := 0
  taken := 0

/-- The states that sequences of operations lead to. -/
inductive Reachable : St T → Prop where
  | init : Reachable init
  | step {s : St T} {op : Op T} : Reachable s → Allowed s op → Reachable (step s op)

end

end Wait
