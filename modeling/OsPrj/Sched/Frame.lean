import OsPrj.Sched.Ops

/-!
# What the hooks leave alone

`Quiet view s s'`: between `s` and `s'` only clocks, time slices and execution times have changed,
`TIF_NEED_RESCHED` may have been raised, and the other classes show the same `view`.  Every hook of
`rt.c` and `wrr.c` that does not enqueue, dequeue, requeue or pick is quiet.

`Keeps s s'` is the part of it that enqueue and dequeue have as well.
-/

set_option linter.unusedSectionVars false

namespace Sched

variable {T E X : Type}

/-- The tasks and `rq->curr` are the same, no flag is cleared, nothing is picked and the RT class
is not unthrottled. -/
structure Keeps (s s' : Sys T E) : Prop where
  core : s'.core = s.core
  resched : ∀ p, s.needResched p = true → s'.needResched p = true
  picks : s'.wrrPicks = s.wrrPicks
  wrrThrottled : s'.acct.wrrThrottled = s.acct.wrrThrottled
  rtThrottled : s.acct.rtThrottled = true → s'.acct.rtThrottled = true

/-- Moreover the queues are the same, and the other classes show the same `view`. -/
structure Quiet (view : E → X) (s s' : Sys T E) : Prop extends Keeps s s' where
  queues : s'.queues = s.queues
  view : view s'.other = view s.other
  warnings : Warning.decWrrTasks ∈ s'.warnings → Warning.decWrrTasks ∈ s.warnings

variable {view : E → X} {s s' s'' : Sys T E} {p : T}

lemma Keeps.refl (s : Sys T E) : Keeps s s := ⟨rfl, fun _ => id, rfl, rfl, id⟩

lemma Keeps.trans (h : Keeps s s') (h' : Keeps s' s'') : Keeps s s'' :=
  ⟨h'.core.trans h.core, fun p hp => h'.resched p (h.resched p hp), h'.picks.trans h.picks,
    h'.wrrThrottled.trans h.wrrThrottled, fun ht => h'.rtThrottled (h.rtThrottled ht)⟩

lemma Quiet.refl (s : Sys T E) : Quiet view s s := ⟨.refl s, rfl, rfl, id⟩

lemma Quiet.trans (h : Quiet view s s') (h' : Quiet view s' s'') : Quiet view s s'' :=
  ⟨h.toKeeps.trans h'.toKeeps, h'.queues.trans h.queues, h'.view.trans h.view,
    fun hw => h.warnings (h'.warnings hw)⟩

lemma Keeps.ite {c : Prop} [Decidable c] {a b : Sys T E} (ha : Keeps s a) (hb : Keeps s b) :
    Keeps s (if c then a else b) := by
  split_ifs
  · exact ha
  · exact hb

lemma Quiet.ite {c : Prop} [Decidable c] {a b : Sys T E} (ha : Quiet view s a)
    (hb : Quiet view s b) : Quiet view s (if c then a else b) := by
  split_ifs
  · exact ha
  · exact hb

lemma Keeps.task (h : Keeps s s') (p : T) : s'.task p = s.task p := by
  rw [Sys.task, h.core]

/-! ## The small steps -/

lemma keeps_setQueues (s : Sys T E) (q : Queues T) : Keeps s (s.setQueues q) :=
  ⟨rfl, fun _ => id, rfl, rfl, id⟩

lemma quiet_setAcct (s : Sys T E) {a : Acct T} (hwrr : a.wrrThrottled = s.acct.wrrThrottled)
    (hrt : s.acct.rtThrottled = true → a.rtThrottled = true) : Quiet view s (s.setAcct a) :=
  ⟨⟨rfl, fun _ => id, rfl, hwrr, hrt⟩, rfl, rfl, id⟩

variable [DecidableEq T]

lemma quiet_setSe (s : Sys T E) (p : T) (f : SchedEntity → SchedEntity) :
    Quiet view s (s.setSe p f) := ⟨⟨rfl, fun _ => id, rfl, rfl, id⟩, rfl, rfl, id⟩

lemma quiet_setRt (s : Sys T E) (p : T) (f : SchedRtEntity → SchedRtEntity) :
    Quiet view s (s.setRt p f) := ⟨⟨rfl, fun _ => id, rfl, rfl, id⟩, rfl, rfl, id⟩

lemma quiet_setWrr (s : Sys T E) (p : T) (f : SchedWrrEntity → SchedWrrEntity) :
    Quiet view s (s.setWrr p f) := ⟨⟨rfl, fun _ => id, rfl, rfl, id⟩, rfl, rfl, id⟩

lemma quiet_reschedTask (s : Sys T E) (p : T) : Quiet view s (s.reschedTask p) := by
  refine ⟨⟨rfl, fun q hq => ?_, rfl, rfl, id⟩, rfl, rfl, id⟩
  show Function.update s.needResched p true q = true
  rcases eq_or_ne q p with rfl | hne
  · exact Function.update_self _ _ _
  · rwa [Function.update_of_ne hne]

lemma keeps_warnOn (s : Sys T E) (cond : Bool) (w : Warning) : Keeps s (s.warnOn cond w) := by
  rw [Sys.warnOn]
  split_ifs
  · exact ⟨rfl, fun _ => id, rfl, rfl, id⟩
  · exact .refl s

lemma quiet_warnOn (s : Sys T E) (cond : Bool) {w : Warning} (hw : w ≠ .decWrrTasks) :
    Quiet view s (s.warnOn cond w) := by
  rw [Sys.warnOn]
  split_ifs
  · refine ⟨⟨rfl, fun _ => id, rfl, rfl, id⟩, rfl, rfl, fun h => ?_⟩
    rcases List.mem_append.mp h with h | h
    · exact h
    · exact absurd (List.mem_singleton.mp h).symm hw
  · exact .refl s

lemma quiet_applyHook (s : Sys T E) {r : HookResult T E} (hr : view r.other = view s.other) :
    Quiet view s (s.applyHook r) := by
  rw [Sys.applyHook]
  refine Quiet.ite (.trans ?_ (quiet_reschedTask _ _)) ?_
  · exact ⟨⟨rfl, fun _ => id, rfl, rfl, id⟩, rfl, hr, id⟩
  · exact ⟨⟨rfl, fun _ => id, rfl, rfl, id⟩, rfl, hr, id⟩

lemma keeps_applyHook (s : Sys T E) (r : HookResult T E) : Keeps s (s.applyHook r) :=
  have hquiet : Quiet (fun _ : E => ()) s (s.applyHook r) := quiet_applyHook s rfl
  hquiet.toKeeps

lemma quiet_updateRqClock (K : Kernel T E) (s : Sys T E) : Quiet view s (updateRqClock K s) := by
  rw [updateRqClock]
  split_ifs
  · exact .refl s
  · exact quiet_setAcct _ rfl id

/-! ## The RT and the WRR class -/

lemma quiet_updateCurrWrr (s : Sys T E) : Quiet view s (updateCurrWrr s) := by
  rw [updateCurrWrr]
  split_ifs
  · exact quiet_setSe _ _ _
  · exact .refl s

lemma quiet_setSchedExp (s : Sys T E) (p : T) : Quiet view s (setSchedExp s p) :=
  quiet_setAcct _ rfl id

lemma quiet_watchdogWrr (cfg : Config) (s : Sys T E) (p : T) :
    Quiet view s (watchdogWrr cfg s p) := by
  rw [watchdogWrr]
  refine .ite (.refl s) ((quiet_setWrr _ _ _).trans (.ite ?_ (.refl _)))
  exact quiet_setSchedExp _ _

lemma quiet_resetTimeoutWrr (s : Sys T E) (p : T) (flags : EnqueueFlags) :
    Quiet view s (resetTimeoutWrr s p flags) := by
  rw [resetTimeoutWrr]
  split_ifs
  · exact quiet_setWrr _ _ _
  · exact .refl s

lemma quiet_schedRtRuntimeExceeded (cfg : Config) (s : Sys T E) :
    Quiet view s (schedRtRuntimeExceeded cfg s).2 := by
  rw [schedRtRuntimeExceeded]
  split_ifs
  · exact .refl s
  · exact .refl s
  · exact .refl s
  · exact quiet_setAcct _ rfl fun _ => rfl
  · exact quiet_setAcct _ rfl id
  · exact .refl s

lemma quiet_chargeRtBandwidth (cfg : Config) (s : Sys T E) (delta : BitVec 64) :
    Quiet view s (chargeRtBandwidth cfg s delta) := by
  have hcharge : Quiet view s (s.setAcct { s.acct with rtTime := s.acct.rtTime + delta }) :=
    quiet_setAcct s rfl id
  have hexceeded := hcharge.trans (quiet_schedRtRuntimeExceeded cfg _)
  rw [chargeRtBandwidth]
  refine .ite (.refl s) (.ite (.refl s) (hexceeded.trans (.ite ?_ (.refl _))))
  exact quiet_reschedTask _ _

lemma quiet_accountGroupExecRuntime (s : Sys T E) (p : T) (delta : BitVec 64) :
    Quiet view s (accountGroupExecRuntime s p delta) :=
  quiet_setAcct _ rfl id

lemma quiet_updateCurrRt (cfg : Config) (s : Sys T E) : Quiet view s (updateCurrRt cfg s) := by
  rw [updateCurrRt]
  split_ifs
  · exact (quiet_setSe _ _ _).trans
      ((quiet_accountGroupExecRuntime _ _ _).trans (quiet_chargeRtBandwidth _ _ _))
  · exact .refl s

lemma quiet_watchdogRt (cfg : Config) (s : Sys T E) (p : T) :
    Quiet view s (watchdogRt cfg s p) := by
  rw [watchdogRt]
  refine .ite (.refl s) ((quiet_setRt _ _ _).trans (.ite ?_ (.refl _)))
  exact quiet_setSchedExp _ _

lemma quiet_resetTimeoutRt (s : Sys T E) (p : T) (flags : EnqueueFlags) :
    Quiet view s (resetTimeoutRt s p flags) := by
  rw [resetTimeoutRt]
  split_ifs
  · exact quiet_setRt _ _ _
  · exact .refl s

lemma quiet_checkPreemptCurrRt (s : Sys T E) (p : T) : Quiet view s (checkPreemptCurrRt s p) := by
  rw [checkPreemptCurrRt]
  split_ifs
  · exact quiet_reschedTask _ _
  · exact .refl s

lemma quiet_switchedToRt (s : Sys T E) (p : T) : Quiet view s (switchedToRt s p) := by
  rw [switchedToRt]
  split_ifs
  · exact quiet_reschedTask _ _
  · exact .refl s
  · exact .refl s

lemma quiet_prioChangedRt (s : Sys T E) (p : T) (oldprio : ℤ) :
    Quiet view s (prioChangedRt s p oldprio) := by
  rw [prioChangedRt]
  split_ifs
  · exact .refl s
  · exact quiet_reschedTask _ _
  · exact .refl s
  · exact quiet_reschedTask _ _
  · exact .refl s

lemma quiet_schedRtRqEnqueue (s : Sys T E) : Quiet view s (schedRtRqEnqueue s) := by
  rw [schedRtRqEnqueue]
  split_ifs
  · exact quiet_reschedTask _ _
  · exact .refl s

/-- The period timer is quiet, but that it may end the throttling. -/
lemma quiet_doSchedRtPeriodTimer (cfg : Config) (s : Sys T E) (overrun : BitVec 64) :
    Quiet view (s.setAcct { s.acct with rtThrottled := false })
      (doSchedRtPeriodTimer cfg s overrun) := by
  have hwrite : ∀ a : Acct T, a.wrrThrottled = s.acct.wrrThrottled →
      Quiet view (s.setAcct { s.acct with rtThrottled := false }) (s.setAcct a) := fun a ha =>
    ⟨⟨rfl, fun _ => id, rfl, ha, fun ht => Bool.noConfusion ht⟩, rfl, rfl, id⟩
  have hsame := hwrite s.acct rfl
  rw [doSchedRtPeriodTimer]
  refine .ite (.ite ?_ (hwrite _ rfl)) (.ite (.ite ?_ hsame) hsame)
  · rw [rtUnthrottle]
    exact (hwrite _ (by rfl)).trans (quiet_schedRtRqEnqueue _)
  · exact hsame.trans (quiet_schedRtRqEnqueue _)

/-! ## Enqueue, dequeue and requeue -/

/-- What enqueue, dequeue and requeue of the two classes keep, while `rq->nr_running` changes
by `n`. -/
structure Counts (n : ℤ) (s s' : Sys T E) : Prop extends Keeps s s' where
  other : s'.other = s.other
  nr : s'.queues.nrRunning = s.queues.nrRunning + n

lemma Quiet.counts (h : Quiet id s s') : Counts 0 s s' :=
  ⟨h.toKeeps, h.view, by rw [h.queues, add_zero]⟩

lemma Counts.step {n : ℤ} (h : Counts 0 s s') (h' : Counts n s' s'') : Counts n s s'' :=
  ⟨h.toKeeps.trans h'.toKeeps, h'.other.trans h.other, by rw [h'.nr, h.nr, add_zero]⟩

lemma Counts.write (h : Counts 0 s s') {q : Queues T} {n : ℤ}
    (hq : q.nrRunning = s.queues.nrRunning + n) : Counts n s (s'.setQueues q) :=
  ⟨h.toKeeps.trans (keeps_setQueues s' q), h.other, hq⟩

lemma counts_setQueues (s : Sys T E) {q : Queues T} {n : ℤ}
    (hq : q.nrRunning = s.queues.nrRunning + n) : Counts n s (s.setQueues q) :=
  ⟨keeps_setQueues s q, rfl, hq⟩

lemma counts_warnOn (s : Sys T E) (cond : Bool) (w : Warning) : Counts 0 s (s.warnOn cond w) := by
  refine ⟨keeps_warnOn s cond w, ?_, ?_⟩
  · rw [Sys.warnOn]
    split_ifs <;> rfl
  · rw [Sys.warnOn, add_zero]
    split_ifs <;> rfl

lemma counts_decWrrTasks (s : Sys T E) : Counts 0 s (decWrrTasks s) :=
  (counts_warnOn s (s.queues.wrrNrRunning == 0) .decWrrTasks).write (add_zero _).symm

lemma counts_dequeueWrrStack (s : Sys T E) (p : T) : Counts 0 s (dequeueWrrStack s p) := by
  rw [dequeueWrrStack]
  split_ifs
  · exact (counts_setQueues s (by rw [add_zero])).step (counts_decWrrTasks _)
  · exact (Quiet.refl s).counts

lemma counts_enqueueWrrEntity (s : Sys T E) (p : T) (head : Bool) :
    Counts 0 s (enqueueWrrEntity s p head) :=
  (counts_dequeueWrrStack s p).step
    ((counts_setQueues _ (by rw [add_zero])).step (counts_setQueues _ (by rw [add_zero])))

lemma counts_enqueueTaskWrr (s : Sys T E) (p : T) (flags : EnqueueFlags) :
    Counts 1 s (enqueueTaskWrr s p flags) :=
  (quiet_resetTimeoutWrr s p flags).counts.step
    ((counts_enqueueWrrEntity _ _ _).step (counts_setQueues _ rfl))

lemma counts_dequeueTaskWrr (s : Sys T E) (p : T) : Counts (-1) s (dequeueTaskWrr s p) :=
  (quiet_updateCurrWrr s).counts.step ((counts_dequeueWrrStack _ p).step (counts_setQueues _ rfl))

lemma counts_requeueTaskWrr (s : Sys T E) (p : T) (head : Bool) :
    Counts 0 s (requeueTaskWrr s p head) := by
  rw [requeueTaskWrr]
  by_cases hon : onWrrRq s p = true
  · rw [if_pos hon]
    exact counts_setQueues _ (add_zero _).symm
  · rw [if_neg hon]
    exact (Quiet.refl s).counts

lemma counts_incRtTasks (s : Sys T E) (p : T) : Counts 0 s (incRtTasks s p) :=
  (counts_warnOn s (!rtPrio (rtSePrio s p)) .rtPrio).write (add_zero _).symm

lemma counts_decRtTasks (s : Sys T E) (p : T) : Counts 0 s (decRtTasks s p) := by
  have hwarn := (counts_warnOn s (!rtPrio (rtSePrio s p)) .rtPrio).step
    (counts_warnOn _ (s.queues.rtNrRunning == 0) .decRtTasks)
  exact hwarn.write (add_zero _).symm

lemma counts_dequeueRtStack (s : Sys T E) (p : T) : Counts 0 s (dequeueRtStack s p) := by
  rw [dequeueRtStack]
  split_ifs
  · exact (counts_setQueues s (by rw [add_zero])).step (counts_decRtTasks _ _)
  · exact (Quiet.refl s).counts

lemma counts_enqueueRtEntity (s : Sys T E) (p : T) (head : Bool) :
    Counts 0 s (enqueueRtEntity s p head) :=
  (counts_dequeueRtStack s p).step
    ((counts_setQueues _ (by rw [add_zero])).step (counts_incRtTasks _ _))

lemma counts_enqueueTaskRt (s : Sys T E) (p : T) (flags : EnqueueFlags) :
    Counts 1 s (enqueueTaskRt s p flags) :=
  (quiet_resetTimeoutRt s p flags).counts.step
    ((counts_enqueueRtEntity _ _ _).step (counts_setQueues _ rfl))

lemma counts_dequeueTaskRt (cfg : Config) (s : Sys T E) (p : T) :
    Counts (-1) s (dequeueTaskRt cfg s p) :=
  (quiet_updateCurrRt cfg s).counts.step
    ((counts_dequeueRtStack _ p).step (counts_setQueues _ rfl))

lemma counts_requeueTaskRt (s : Sys T E) (p : T) (head : Bool) :
    Counts 0 s (requeueTaskRt s p head) := by
  rw [requeueTaskRt]
  by_cases hon : onRtRq s p = true
  · rw [if_pos hon]
    exact counts_setQueues _ (add_zero _).symm
  · rw [if_neg hon]
    exact (Quiet.refl s).counts

variable (K : Kernel T E)

/-! ## Calls through `p->sched_class` -/

/-- The hooks of the other classes, apart from enqueue and dequeue, keep the `view`. -/
structure QuietHooks (view : E → X) : Prop where
  yield : ∀ c s, view (K.yieldOther c s).other = view s.other
  checkPreempt : ∀ c s p, view (K.checkPreemptOther c s p).other = view s.other
  pick : ∀ c s, view (K.pickOther c s).2.other = view s.other
  putPrev : ∀ c s p, view (K.putPrevOther c s p).other = view s.other
  setCurr : ∀ c s, view (K.setCurrOther c s).other = view s.other
  taskTick : ∀ c s p, view (K.taskTickOther c s p).other = view s.other
  taskFork : ∀ c s p, view (K.taskForkOther c s p).other = view s.other
  switchedFrom : ∀ c s p, view (K.switchedFromOther c s p).other = view s.other
  switchedTo : ∀ c s p, view (K.switchedToOther c s p).other = view s.other
  prioChanged : ∀ c s p prio, view (K.prioChangedOther c s p prio).other = view s.other
  taskMoveGroup : ∀ c s p onRq, view (K.taskMoveGroupOther c s p onRq).other = view s.other

/-- They keep the view that shows nothing. -/
lemma quietHooks_unit : QuietHooks K fun _ => () := by
  constructor <;> intros <;> rfl

variable {K}

lemma quiet_classPutPrevTask (hK : QuietHooks K view) (s : Sys T E) (p : T) :
    Quiet view s (classPutPrevTask K s p) := by
  rw [classPutPrevTask]
  split
  · exact quiet_updateCurrRt _ s
  · exact quiet_updateCurrWrr s
  · exact quiet_applyHook s (hK.putPrev _ _ _)

lemma quiet_putPrevTask (hK : QuietHooks K view) (s : Sys T E) (p : T) :
    Quiet view s (putPrevTask K s p) :=
  (Quiet.ite (quiet_updateRqClock K s) (.refl s)).trans (quiet_classPutPrevTask hK _ p)

lemma quiet_classSetCurrTask (hK : QuietHooks K view) (s : Sys T E) :
    Quiet view s (classSetCurrTask K s) := by
  rw [classSetCurrTask]
  split
  · exact quiet_setSe _ _ _
  · exact quiet_setSe _ _ _
  · exact quiet_applyHook s (hK.setCurr _ _)

lemma quiet_switchedFrom (hK : QuietHooks K view) (c : SchedClass) (s : Sys T E) (p : T) :
    Quiet view s (switchedFrom K c s p) := by
  cases c with
  | rt | wrr => exact .refl s
  | stop | fair | idle => exact quiet_applyHook s (hK.switchedFrom _ _ _)

lemma quiet_switchedTo (hK : QuietHooks K view) (s : Sys T E) (p : T) :
    Quiet view s (switchedTo K s p) := by
  rw [switchedTo]
  split
  · exact quiet_switchedToRt s p
  · exact .refl s
  · exact quiet_applyHook s (hK.switchedTo _ _ _)

lemma quiet_prioChanged (hK : QuietHooks K view) (s : Sys T E) (p : T) (oldprio : ℤ) :
    Quiet view s (prioChanged K s p oldprio) := by
  rw [prioChanged]
  split
  · exact quiet_prioChangedRt s p oldprio
  · exact .refl s
  · exact quiet_applyHook s (hK.prioChanged _ _ _ _)

lemma quiet_checkClassChanged (hK : QuietHooks K view) (s : Sys T E) (p : T)
    (prevClass : SchedClass) (oldprio : ℤ) :
    Quiet view s (checkClassChanged K s p prevClass oldprio) := by
  rw [checkClassChanged]
  split_ifs
  · exact (quiet_switchedFrom hK _ s p).trans (quiet_switchedTo hK _ p)
  · exact quiet_prioChanged hK s p oldprio
  · exact .refl s

lemma quiet_classCheckPreemptCurr (hK : QuietHooks K view) (s : Sys T E) (p : T) :
    Quiet view s (classCheckPreemptCurr K s p) := by
  rw [classCheckPreemptCurr]
  split
  · exact quiet_checkPreemptCurrRt s p
  · exact .refl s
  · exact quiet_applyHook s (hK.checkPreempt _ _ _)

lemma quiet_preemptByClass (hK : QuietHooks K view) (s : Sys T E) (p : T) :
    Quiet view s (preemptByClass K s p) := by
  rw [preemptByClass]
  split_ifs
  · exact quiet_classCheckPreemptCurr hK s p
  · exact quiet_reschedTask s _
  · exact .refl s

lemma quiet_checkPreemptCurr (hK : QuietHooks K view) (s : Sys T E) (p : T) :
    Quiet view s (checkPreemptCurr K s p) :=
  (quiet_preemptByClass hK s p).trans (.ite (quiet_setAcct _ rfl id) (.refl _))

lemma quiet_addUninterruptible (s : Sys T E) (p : T) (n : ℤ) :
    Quiet view s (addUninterruptible s p n) :=
  .ite (quiet_setAcct s rfl id) (.refl s)

variable (K)

lemma keeps_updateRqClock (s : Sys T E) : Keeps s (updateRqClock K s) :=
  (quiet_updateRqClock K s).counts.toKeeps

lemma keeps_enqueueTask (s : Sys T E) (p : T) (flags : EnqueueFlags) :
    Keeps s (enqueueTask K s p flags) := by
  refine (keeps_updateRqClock K s).trans ?_
  rw [enqueueTask]
  split
  · exact (counts_enqueueTaskRt _ _ _).toKeeps
  · exact (counts_enqueueTaskWrr _ _ _).toKeeps
  · exact (keeps_setQueues _ _).trans (keeps_applyHook _ _)

lemma keeps_dequeueTask (s : Sys T E) (p : T) (sleep : Bool) :
    Keeps s (dequeueTask K s p sleep) := by
  refine (keeps_updateRqClock K s).trans ?_
  rw [dequeueTask]
  split
  · exact (counts_dequeueTaskRt _ _ _).toKeeps
  · exact (counts_dequeueTaskWrr _ _).toKeeps
  · exact (keeps_setQueues _ _).trans (keeps_applyHook _ _)

lemma keeps_activateTask (s : Sys T E) (p : T) (flags : EnqueueFlags) :
    Keeps s (activateTask K s p flags) :=
  (quiet_addUninterruptible s p (-1)).counts.toKeeps.trans (keeps_enqueueTask K _ p flags)

lemma keeps_deactivateTask (s : Sys T E) (p : T) (sleep : Bool) :
    Keeps s (deactivateTask K s p sleep) :=
  (quiet_addUninterruptible s p 1).counts.toKeeps.trans (keeps_dequeueTask K _ p sleep)

lemma keeps_yieldTask (s : Sys T E) : Keeps s (yieldTask K s) := by
  rw [yieldTask]
  split
  · exact (counts_requeueTaskRt _ _ _).toKeeps
  · exact (counts_requeueTaskWrr _ _ _).toKeeps
  · exact keeps_applyHook _ _

/-! ## The tick -/

lemma Keeps.setTask (h : Keeps s s') (p : T) (f : TaskStruct → TaskStruct) :
    Keeps (s.setTask p f) (s'.setTask p f) where
  core := by rw [Sys.setTask, Sys.setTask, h.core]
  resched := h.resched
  picks := h.picks
  wrrThrottled := h.wrrThrottled
  rtThrottled := h.rtThrottled

lemma keeps_expireWrr (cfg : Config) (s : Sys T E) (p : T) : Keeps s (expireWrr cfg s p) := by
  have hfill : ∀ f, Keeps s (s.setWrr p f) := fun f => (quiet_setWrr s p f).counts.toKeeps
  rw [expireWrr]
  split
  · exact (hfill _).trans ((counts_requeueTaskWrr _ p false).toKeeps.trans
      (quiet_reschedTask _ p).counts.toKeeps)
  · exact hfill _

lemma keeps_expireRt (cfg : Config) (s : Sys T E) (p : T) : Keeps s (expireRt cfg s p) := by
  have hfill : ∀ f, Keeps s (s.setRt p f) := fun f => (quiet_setRt s p f).counts.toKeeps
  rw [expireRt]
  split
  · exact (hfill _).trans ((counts_requeueTaskRt _ p false).toKeeps.trans
      (quiet_reschedTask _ p).counts.toKeeps)
  · exact hfill _

/-- A tick in the WRR class keeps the tasks, but that it may raise `p->prio`. -/
lemma keeps_sliceTickWrr (cfg : Config) (s : Sys T E) (p : T) :
    Keeps s (sliceTickWrr cfg s p) ∨ Keeps (s.setTask p incPrioWrr) (sliceTickWrr cfg s p) := by
  rw [sliceTickWrr]
  split_ifs
  · exact .inl (.refl s)
  · exact .inr ((quiet_setWrr s p _).counts.toKeeps.setTask p incPrioWrr)
  · exact .inl (keeps_expireWrr cfg s p)

lemma keeps_sliceTickRt (cfg : Config) (s : Sys T E) (p : T) : Keeps s (sliceTickRt cfg s p) := by
  rw [sliceTickRt]
  split_ifs
  · exact .refl s
  · exact (quiet_setRt s p _).counts.toKeeps
  · exact keeps_expireRt cfg s p

/-- A tick keeps the tasks, but for the priority of a running WRR task. -/
theorem keeps_classTaskTick (s : Sys T E) :
    Keeps s (classTaskTick K s) ∨
      (s.task s.core.curr).schedClass = .wrr ∧
        Keeps (s.setTask s.core.curr incPrioWrr) (classTaskTick K s) := by
  rw [classTaskTick]
  split
  · exact .inl ((quiet_updateCurrRt _ s).counts.toKeeps.trans
      ((quiet_watchdogRt _ _ _).counts.toKeeps.trans (keeps_sliceTickRt _ _ _)))
  · have hupdate : Keeps s (watchdogWrr K.toConfig (updateCurrWrr s) s.core.curr) :=
      (quiet_updateCurrWrr s).counts.toKeeps.trans (quiet_watchdogWrr _ _ _).counts.toKeeps
    rcases keeps_sliceTickWrr K.toConfig (watchdogWrr K.toConfig (updateCurrWrr s) s.core.curr)
      s.core.curr with hsame | hinc
    · exact .inl (hupdate.trans hsame)
    · exact .inr ⟨‹_›, (hupdate.setTask s.core.curr incPrioWrr).trans hinc⟩
  · exact .inl (keeps_applyHook s _)

end Sched
