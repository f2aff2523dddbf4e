import OsPrj.Sched.Accounting

/-!
# Charging the current task

The parts of an operation are put together.

* `Restamped` — the class of the current task is written when the task has just been charged.
* `Accounts` — what a whole operation does to the execution times.
* `step_accounts` — **every operation does one of these**, and calls `update_curr_wrr` only where
  `ChargesWrr` says so.
-/

namespace Sched

variable {T E : Type} [DecidableEq T] {K : Kernel T E} {called : Prop} {s s' : Sys T E} {p : T}

/-! ## Parts that call no hook -/

lemma accounted_addUninterruptible (s : Sys T E) (p : T) (n : ℤ) :
    Accounted K called s (addUninterruptible s p n) := by
  rw [addUninterruptible]
  exact .ite (fun _ => accounted_of_times rfl (.of_core rfl) rfl rfl) fun _ => .refl s

lemma accounted_watchdogWrr (s : Sys T E) (p : T) :
    Accounted K called s (watchdogWrr K.toConfig s p) := by
  refine accounted_of_quiet (quiet_watchdogWrr _ s p) ?_
  rw [watchdogWrr]
  dsimp only
  split_ifs <;> rfl

lemma accounted_watchdogRt (s : Sys T E) (p : T) :
    Accounted K called s (watchdogRt K.toConfig s p) := by
  refine accounted_of_quiet (quiet_watchdogRt _ s p) ?_
  rw [watchdogRt]
  dsimp only
  split_ifs <;> rfl

lemma accounted_sliceTickWrr (s : Sys T E) (p : T) :
    Accounted K called s (sliceTickWrr K.toConfig s p) := by
  rw [sliceTickWrr]
  refine .ite (fun _ => .refl s) fun _ => .ite (fun _ => ?_) fun _ => ?_
  · have hslice : Accounted K called s (s.setWrr p fun e =>
        { e with timeSlice := nextTimeSliceWrr K.toConfig s p }) :=
      accounted_of_times rfl (.of_core rfl) rfl rfl
    exact hslice.trans (accounted_setTask _ p (fun _ => rfl) rfl)
  · rw [expireWrr]
    refine .ite (fun _ => ?_) fun _ => accounted_of_times rfl (.of_core rfl) rfl rfl
    have hrequeue := counts_requeueTaskWrr (s.setWrr p fun e =>
      { e with timeSlice := wrrTimeslice K.toConfig (s.task p).schedTaskGroup }) p false
    refine accounted_of_times (congrArg Core.curr hrequeue.core) (.of_core hrequeue.core)
      (congrArg (fun c : Core T => (c.task s.core.curr).schedClass) hrequeue.core) ?_
    rw [acct_reschedTask, acct_requeueTaskWrr]
    rfl

lemma accounted_sliceTickRt (s : Sys T E) (p : T) :
    Accounted K called s (sliceTickRt K.toConfig s p) := by
  rw [sliceTickRt]
  refine .ite (fun _ => .refl s) fun _ => .ite (fun _ => ?_) fun _ => ?_
  · exact accounted_of_times rfl (.of_core rfl) rfl rfl
  · rw [expireRt]
    refine .ite (fun _ => ?_) fun _ => accounted_of_times rfl (.of_core rfl) rfl rfl
    have hrequeue := counts_requeueTaskRt (s.setRt p fun e =>
      { e with timeSlice := rrTimeslice K.toConfig }) p false
    refine accounted_of_times (congrArg Core.curr hrequeue.core) (.of_core hrequeue.core)
      (congrArg (fun c : Core T => (c.task s.core.curr).schedClass) hrequeue.core) ?_
    rw [acct_reschedTask, acct_requeueTaskRt]
    rfl

lemma accounted_timer (s : Sys T E) (overrun : BitVec 64) :
    Accounted K called s (doSchedRtPeriodTimer K.toConfig s overrun) := by
  have hquiet : Quiet (fun _ : E => ()) _ (doSchedRtPeriodTimer K.toConfig s overrun) :=
    quiet_doSchedRtPeriodTimer K.toConfig s overrun
  refine accounted_of_times (congrArg Core.curr hquiet.core) (.of_core hquiet.core)
    (congrArg (fun c : Core T => (c.task s.core.curr).schedClass) hquiet.core) ?_
  have henqueue : ∀ s : Sys T E, (schedRtRqEnqueue s).acct = s.acct := by
    intro s
    rw [schedRtRqEnqueue]
    split_ifs <;> rfl
  have hunthrottle : ∀ s : Sys T E, (rtUnthrottle s).acct.times = s.acct.times := by
    intro s
    rw [rtUnthrottle, henqueue]
    rfl
  rw [doSchedRtPeriodTimer]
  dsimp only
  split_ifs
  · exact hunthrottle _
  · rfl
  · exact hunthrottle _
  · rfl
  · rw [henqueue]
  · rfl
  · rfl

/-! ## Stamps -/

/-- A stamp on a task that is not waiting to be charged. -/
lemma accounted_stamp (s : Sys T E) (p : T)
    (hp : currClass s = .wrr → p = s.core.curr → (s.acct.se p).execStart = s.acct.clockTask) :
    Accounted K called s (s.setSe p fun se => { se with execStart := s.acct.clockTask }) := by
  have hse : ∀ q, (s.setSe p fun se => { se with execStart := s.acct.clockTask }).acct.se q =
      if q = p then { s.acct.se p with execStart := s.acct.clockTask } else s.acct.se q := fun q =>
    Function.update_apply _ _ _ _
  have hsame : currClass s = .wrr →
      (s.setSe p fun se => { se with execStart := s.acct.clockTask }).acct.se s.core.curr
        = s.acct.se s.core.curr := by
    intro hwrr
    rw [hse]
    split_ifs with heq
    · rw [← hp hwrr heq.symm, ← heq]
    · rfl
  refine ⟨rfl, .of_core rfl, rfl, fun ht => ⟨ht.steady, ht.clock, ht.reading, fun hwrr => ?_⟩,
    fun _ => le_rfl, fun _ hwrr => ?_, 0, 0, .none (fun q _ => ?_) rfl⟩
  · show ((s.setSe p _).acct.se s.core.curr).execStart.toNat ≤ s.acct.clockTask.toNat
    rw [hsame hwrr]
    exact ht.execStart hwrr
  · rw [lead, lead, hsame hwrr]
  · rw [hse]
    split_ifs with heq
    · rw [heq]
    · rfl

/-- A task that has just been charged is so after any stamp. -/
lemma upToDate_stamp (hup : UpToDate s) (p : T) :
    UpToDate (s.setSe p fun se => { se with execStart := s.acct.clockTask }) := by
  intro hwrr
  show (Function.update s.acct.se p _ s.core.curr).execStart = s.acct.clockTask
  rw [Function.update_apply]
  split_ifs
  · rfl
  · exact hup hwrr

/-- After `put_prev_task` the current task has just been charged. -/
lemma upToDate_classPutPrevTask (s : Sys T E) (hcurr : s.core.curr = p) :
    UpToDate (classPutPrevTask K s p) := by
  subst hcurr
  intro hwrr
  have hcore : (classPutPrevTask K s s.core.curr).core = s.core :=
    (quiet_classPutPrevTask (quietHooks_unit K) s _).core
  have hclass : (s.task s.core.curr).schedClass = .wrr := by
    rw [← hwrr, currClass, Sys.task, Sys.task, hcore]
  have hput : classPutPrevTask K s s.core.curr = updateCurrWrr s := by
    rw [classPutPrevTask, hclass]
    rfl
  rw [hput] at hwrr ⊢
  exact upToDate_updateCurrWrr s hwrr

lemma pickNextTaskRt_stamp (h : pickNextTaskRt s = .ok (some p, s')) :
    s' = s.setSe p fun se => { se with execStart := s.acct.clockTask } := by
  rw [pickNextTaskRt] at h
  split_ifs at h
  · simp at h
  · simp at h
  · cases hentity : pickNextRtEntity s with
    | error e => simp [hentity, bind, Except.bind] at h
    | ok q =>
        simp only [hentity, bind, Except.bind, pure, Except.pure, Except.ok.injEq, Prod.mk.injEq,
          Option.some.injEq] at h
        rcases h with ⟨rfl, rfl⟩
        rfl

lemma pickNextTaskWrr_stamp (h : pickNextTaskWrr s = .ok (some p, s')) : s' = wrrPicked s p := by
  rw [pickNextTaskWrr] at h
  split_ifs at h
  · simp at h
  · simp at h
  · cases hentity : pickNextWrrEntity s with
    | error e => simp [hentity, bind, Except.bind] at h
    | ok q =>
        simp only [hentity, bind, Except.bind, pure, Except.pure, Except.ok.injEq, Prod.mk.injEq,
          Option.some.injEq] at h
        rcases h with ⟨rfl, rfl⟩
        rfl

/-! ## What a whole operation does -/

/-- The task off its queue, and not the current one of its class. -/
def beforeChange (K : Kernel T E) (s : Sys T E) (p : T) : Sys T E :=
  if s.core.curr = p then
    classPutPrevTask K (if (s.task p).onRq then dequeueTask K s p false else s) p
  else if (s.task p).onRq then dequeueTask K s p false else s

lemma keeps_beforeChange (s : Sys T E) (p : T) : Keeps s (beforeChange K s p) := by
  have hdequeue : Keeps s (if (s.task p).onRq then dequeueTask K s p false else s) :=
    .ite (keeps_dequeueTask K s p false) (.refl s)
  exact .ite (hdequeue.trans (quiet_classPutPrevTask (quietHooks_unit K) _ p).toKeeps) hdequeue

lemma upToDate_beforeChange (s : Sys T E) (hcurr : s.core.curr = p) :
    UpToDate (beforeChange K s p) := by
  have hkeeps : Keeps s (if (s.task p).onRq then dequeueTask K s p false else s) :=
    .ite (keeps_dequeueTask K s p false) (.refl s)
  rw [beforeChange, if_pos hcurr]
  refine upToDate_classPutPrevTask _ ?_
  rw [hkeeps.core, hcurr]

/-- The current task, just charged, has got its class anew, and its stamp with it. -/
structure Restamped (K : Kernel T E) (b m : Sys T E) : Prop where
  curr : m.core.curr = b.core.curr
  threads : Threads b m
  timed : Timed K b → Timed K m
  later : Timed K b → b.acct.clockTask.toNat ≤ m.acct.clockTask.toNat
  wrr : currClass m = .wrr → lead m m.core.curr
    = (b.acct.se b.core.curr).sumExecRuntime - b.acct.clockTask
  charged : currClass b ≠ .idle → ∃ shared, Charged False b m shared 0

/-- What an operation does to the execution times: it leaves the current task and its class alone,
or it changes the class when the task has just been charged (in the state `b`), or it switches to
another task when the old one has just been charged. -/
inductive Accounts (K : Kernel T E) (called : Prop) (s : Sys T E) : Sys T E → Sys T E → Prop where
  | stays {b s' : Sys T E} : Accounted K called s s' → Accounts K called s b s'
  | changes {b m s' : Sys T E} : Accounted K called s b → UpToDate b → currClass s ≠ .idle →
      Restamped K b m → Accounted K False m s' → Accounts K called s b s'
  | switches {s₂ : Sys T E} {next : T} : Accounted K called s s₂ → UpToDate s₂ →
      ((s₂.task next).schedClass = .wrr →
        (s₂.acct.se next).execStart = s₂.acct.clockTask) →
      Accounts K called s (switchTo s₂ s.core.curr next) (switchTo s₂ s.core.curr next)

/-- Whether an operation calls `update_curr_wrr`, when the current task is one of WRR. -/
def ChargesWrr (s : Sys T E) : Op T → Prop
  | .schedule _ | .schedYield _ | .schedulerTick => True
  | .setscheduler p policy prio _ => s.core.stop ≠ some p ∧
      ¬(policy = (s.task p).policy ∧ (rtPolicy policy = false ∨ prio = (s.task p).rtPriority)) ∧
      (s.core.curr = p ∨ (s.task p).onRq = true) ∧ (s.task p).schedClass = .wrr
  | .setUserNice p nice =>
      ¬(prioToNice (s.task p).staticPrio = nice ∨ nice < -20 ∨ nice > 19) ∧
      rtPolicy (s.task p).policy = false ∧ (s.task p).onRq = true ∧ (s.task p).schedClass = .wrr
  | .rtMutexSetprio p _ | .schedMoveTask p _ =>
      (s.core.curr = p ∨ (s.task p).onRq = true) ∧ (s.task p).schedClass = .wrr
  | _ => False

instance (s : Sys T E) : (op : Op T) → Decidable (ChargesWrr s op)
  | .schedule _ | .schedYield _ | .schedulerTick => .isTrue trivial
  | .setscheduler _ _ _ _ | .setUserNice _ _ => inferInstanceAs (Decidable (_ ∧ _ ∧ _ ∧ _))
  | .rtMutexSetprio _ _ | .schedMoveTask _ _ => inferInstanceAs (Decidable (_ ∧ _))
  | .fork _ | .wakeUpNewTask _ | .tryToWakeUp _ _ | .setCurrentState _ | .pickNextTask
  | .setTopPiWaiter _ _ | .writeField _ _ | .schedRtPeriodTimer _ => .isFalse id

/-- The moment in an operation at which the current task or its class may change: when the task is
about to be written, or else at the end. -/
def handover (K : Kernel T E) (s : Sys T E) (op : Op T) (s' : Sys T E) : Sys T E :=
  match op with
  | .setscheduler p _ _ _ | .rtMutexSetprio p _ | .schedMoveTask p _ => beforeChange K s p
  | _ => s'

section

variable (hhooks : ChargingHooks K)
include hhooks

/-! ## Operations that keep the current task and its class -/

lemma accounted_activateTask (s : Sys T E) (p : T) (flags : EnqueueFlags) :
    Accounted K called s ((activateTask K s p flags).setTask p fun t => { t with onRq := true }) :=
  ((accounted_addUninterruptible s p (-1)).trans (accounted_enqueueTask hhooks _ p flags)).trans
    (accounted_setTask _ p (fun _ => rfl) rfl)

lemma accounted_ttwuDoWakeup (s : Sys T E) (p : T) : Accounted K called s (ttwuDoWakeup K s p) :=
  (accounted_checkPreemptCurr hhooks s p).trans (accounted_setTask _ p (fun _ => rfl) rfl)

lemma accounted_tryToWakeUp (s : Sys T E) (p : T) (state : ℕ) :
    Accounted K called s (tryToWakeUp K s p state) := by
  rw [tryToWakeUp]
  refine .ite (fun _ => .refl s) fun _ => .ite (fun _ => ?_) fun _ => ?_
  · exact accounted_ttwuDoWakeup hhooks s p
  · exact (accounted_activateTask hhooks s p _).trans (accounted_ttwuDoWakeup hhooks _ p)

lemma accounted_tryToWakeUpLocal (s : Sys T E) (p : T) :
    Accounted K called s (tryToWakeUpLocal K s p) := by
  rw [tryToWakeUpLocal]
  refine .ite (fun _ => ?_) fun _ => .ite (fun _ => .refl s) fun _ => .ite (fun _ => ?_) fun _ => ?_
  · exact (keeps_warnOn s true _).accounted (by rw [acct_warnOn])
  · exact accounted_ttwuDoWakeup hhooks s p
  · exact (accounted_activateTask hhooks s p _).trans (accounted_ttwuDoWakeup hhooks _ p)

lemma accounted_wakeUpNewTask (s : Sys T E) (p : T) : Accounted K called s (wakeUpNewTask K s p) :=
  (accounted_activateTask hhooks s p _).trans (accounted_checkPreemptCurr hhooks _ p)

lemma accounted_yieldTask (s : Sys T E) : Accounted K called s (yieldTask K s) := by
  rw [yieldTask]
  split
  · exact (counts_requeueTaskRt s _ false).toKeeps.accounted
      (congrArg Acct.times (acct_requeueTaskRt s _ false))
  · exact (counts_requeueTaskWrr s _ false).toKeeps.accounted
      (congrArg Acct.times (acct_requeueTaskWrr s _ false))
  · exact accounted_applyHook (hhooks.yield _ _)

lemma accounted_scheduleOut (s : Sys T E) (a : ScheduleArgs T) :
    Accounted K True s (scheduleOut K s a) := by
  rw [scheduleOut]
  refine .ite (fun _ => .ite (fun _ => accounted_setTask s _ (fun _ => rfl) rfl) fun _ => ?_)
    fun _ => .refl s
  have hout : Accounted K True s ((deactivateTask K s s.core.curr true).setTask s.core.curr fun t =>
      { t with onRq := false }) :=
    ((accounted_addUninterruptible s s.core.curr 1).trans
      (accounted_dequeueTask hhooks _ s.core.curr true fun _ => trivial)).trans
      (accounted_setTask _ _ (fun _ => rfl) rfl)
  refine .ite (fun _ => ?_) fun _ => hout
  cases a.toWakeup with
  | none => exact hout
  | some p => exact hout.trans (accounted_tryToWakeUpLocal hhooks _ p)

lemma accounted_putPrevTask (s : Sys T E) (p : T) : Accounted K True s (putPrevTask K s p) := by
  have hclock : Accounted K True s (if (s.task p).onRq ∨ s.acct.skipClockUpdate < 0 then
      updateRqClock K s else s) :=
    .ite (fun _ => accounted_updateRqClock s) fun _ => .refl s
  exact hclock.trans (accounted_classPutPrevTask hhooks _ p fun _ => trivial)

lemma accounted_classSetCurrTask (s : Sys T E) (hup : UpToDate s) :
    Accounted K called s (classSetCurrTask K s) := by
  rw [classSetCurrTask]
  split
  · exact accounted_stamp s _ fun hwrr _ => hup hwrr
  · exact accounted_stamp s _ fun hwrr _ => hup hwrr
  · exact accounted_applyHook (hhooks.setCurr _ _)

lemma accounted_schedulerTick (s : Sys T E) : Accounted K True s (schedulerTick K s) := by
  rw [schedulerTick]
  refine (accounted_updateRqClock s).trans ?_
  rw [classTaskTick]
  split
  · exact ((accounted_updateCurrRt _).trans (accounted_watchdogRt _ _)).trans
      (accounted_sliceTickRt _ _)
  · exact ((accounted_updateCurrWrr _ fun _ => trivial).trans (accounted_watchdogWrr _ _)).trans
      (accounted_sliceTickWrr _ _)
  · exact accounted_applyHook (hhooks.taskTick _ _ _)

lemma accounted_setUserNice (s : Sys T E) (p : T) (nice : ℤ)
    (hcalled : ¬(prioToNice (s.task p).staticPrio = nice ∨ nice < -20 ∨ nice > 19) →
      rtPolicy (s.task p).policy = false → (s.task p).onRq = true →
      (s.task p).schedClass = .wrr → called) : Accounted K called s (setUserNice K s p nice) := by
  rw [setUserNice]
  refine .ite (fun _ => .refl s) fun hnice => .ite (fun _ => ?_) fun hrt => ?_
  · exact accounted_setTask s p (fun _ => rfl) rfl
  · have hout : Accounted K called s (if (s.task p).onRq then dequeueTask K s p false else s) :=
      .ite (fun hon => accounted_dequeueTask hhooks s p false
        (hcalled hnice (Bool.eq_false_of_not_eq_true hrt) hon)) fun _ => .refl s
    refine (hout.trans (accounted_setTask _ p (f := fun t => renicedTask t nice)
      (fun _ => renicedTask_schedClass _ _) (renicedTask_tgid _ _))).trans ?_
    refine .ite (fun _ => .trans
      (accounted_enqueueTask hhooks _ p { wakeup := false, head := false }) ?_) fun _ => .refl _
    exact .ite (fun _ => accounted_of_times rfl (.of_core rfl) rfl rfl) fun _ => .refl _

/-- The child has not run. -/
lemma accounted_schedFork (s : Sys T E) (p : T) (hp : p ∉ s.core.tasklist)
    (hcurr : p ≠ s.core.curr) : Accounted K called s (schedFork K s p) := by
  have hforked : Accounted K called s (forkedSys s p) := by
    have hcore := core_forkedSys s p
    have hse : ∀ q, (forkedSys s p).acct.se q =
        if q = p then { execStart := 0, sumExecRuntime := 0 } else s.acct.se q := fun q =>
      Function.update_apply _ _ _ _
    have htask : ∀ q, q ≠ p → (forkedSys s p).task q = s.task q := by
      intro q hq
      rw [Sys.task, hcore, Core.fork_of_ne _ hq]
    have hcurr' : (forkedSys s p).core.curr = s.core.curr := by
      rw [hcore]
      rfl
    have hlist : (forkedSys s p).core.tasklist = p :: s.core.tasklist := by
      rw [hcore]
      rfl
    refine ⟨hcurr', ⟨fun q hq => ?_, fun q hq => ?_, fun q hq => ?_⟩, ?_, fun ht => ?_,
      fun _ => le_rfl, fun _ _ => ?_, 0, 0, .none (fun q hq => ?_) ?_⟩
    · rw [hlist]
      exact List.mem_cons_of_mem p hq
    · rw [hlist] at hq
      rcases List.mem_cons.mp hq with rfl | hold
      · exact .inr ⟨hcurr, by rw [hse, if_pos rfl]⟩
      · exact .inl hold
    · refine congrArg TaskStruct.tgid (htask q ?_)
      rintro rfl
      exact hq.elim hp hcurr
    · rw [htask _ hcurr.symm]
    · refine ⟨ht.steady, ht.clock, ht.reading, fun hwrr => ?_⟩
      rw [currClass, hcurr', htask _ hcurr.symm] at hwrr
      rw [hcurr', hse, if_neg hcurr.symm]
      exact ht.execStart hwrr
    · rw [lead, lead, hse, if_neg hcurr.symm]
    · have hne : q ≠ p := by
        rintro rfl
        exact hp hq
      rw [hse, if_neg hne]
    · simp [forkedSys, schedForkRaw, dupTaskStruct, Sys.setTask, Sys.setSe, Sys.setQueues]
  rw [schedFork_eq]
  exact .ite (fun _ => hforked.trans (accounted_applyHook (hhooks.taskFork _ _ _)))
    fun _ => hforked

/-! ## Changes of a task -/

lemma accounted_beforeChange (s : Sys T E) (p : T)
    (hcalled : (s.core.curr = p ∨ (s.task p).onRq = true) → (s.task p).schedClass = .wrr → called) :
    Accounted K called s (beforeChange K s p) := by
  have hdequeue : Accounted K called s (if (s.task p).onRq then dequeueTask K s p false else s) :=
    .ite (fun hon => accounted_dequeueTask hhooks s p false (hcalled (.inr hon))) fun _ => .refl s
  have hkeeps : Keeps s (if (s.task p).onRq then dequeueTask K s p false else s) :=
    .ite (keeps_dequeueTask K s p false) (.refl s)
  rw [beforeChange]
  refine .ite (fun hcurr => hdequeue.trans ?_) fun _ => hdequeue
  exact accounted_classPutPrevTask hhooks _ p (by rw [hkeeps.task]; exact hcalled (.inl hcurr))

/-- The class and the stamp are written in one go; in between, `m₀`, a hook may run for another
class than WRR. -/
lemma restamped_classSetCurrTask (b : Sys T E) (hcurr : b.core.curr = p)
    {f : TaskStruct → TaskStruct} (htgid : (f (b.task p)).tgid = (b.task p).tgid) {m₀ : Sys T E}
    (h₀ : Accounted K False (b.setTask p f) m₀)
    (hsame : (f (b.task p)).schedClass = .wrr → m₀ = b.setTask p f) :
    Restamped K b (classSetCurrTask K m₀) := by
  subst hcurr
  have hclass : currClass (b.setTask b.core.curr f) = (f (b.task b.core.curr)).schedClass :=
    congrArg TaskStruct.schedClass (setTask_task_self b _ f)
  by_cases hwrr : (f (b.task b.core.curr)).schedClass = .wrr
  · have hset : classSetCurrTask K (b.setTask b.core.curr f) =
        setCurrTaskWrr (b.setTask b.core.curr f) := by
      rw [classSetCurrTask, show ((b.setTask _ f).task _).schedClass = _ from hclass, hwrr]
    have hse : ∀ q, (setCurrTaskWrr (b.setTask b.core.curr f)).acct.se q =
        if q = b.core.curr then { b.acct.se b.core.curr with execStart := b.acct.clockTask }
        else b.acct.se q := fun q => Function.update_apply _ _ _ _
    rw [hsame hwrr, hset]
    refine ⟨rfl, ⟨fun _ => id, fun _ => .inl, (threads_setTask b _ htgid).tgid⟩,
      fun ht => ⟨ht.steady, ht.clock, ht.reading, fun _ => ?_⟩, fun _ => le_rfl, fun _ => ?_,
      fun _ => ⟨0, .none (fun q _ => ?_) rfl⟩⟩
    · show ((setCurrTaskWrr _).acct.se b.core.curr).execStart.toNat ≤ b.acct.clockTask.toNat
      rw [hse, if_pos rfl]
    · show lead _ b.core.curr = _
      rw [lead, hse, if_pos rfl]
    · rw [hse]
      split_ifs with heq
      · rw [heq]
      · rfl
  · have hm₀ : currClass m₀ ≠ .wrr := by
      rw [currClass, h₀.curr, h₀.currClass, hclass]
      exact hwrr
    have hm := h₀.trans (accounted_classSetCurrTask hhooks m₀ fun h => absurd h hm₀)
    have hm' : currClass (classSetCurrTask K m₀) ≠ .wrr := by
      rw [currClass, hm.curr, hm.currClass, hclass]
      exact hwrr
    rcases hm.charged with ⟨d, w, hcharged⟩
    have hw : w = 0 := by
      by_contra hne
      exact (hcharged.wrr hne).1
    have htimed : Timed K b → Timed K (b.setTask b.core.curr f) := fun ht =>
      ⟨ht.steady, ht.clock, ht.reading, fun h => absurd (hclass.symm.trans h) hwrr⟩
    refine ⟨hm.curr, (threads_setTask b _ htgid).trans hm.threads rfl hcharged,
      fun ht => hm.timed (htimed ht), fun ht => hm.later (htimed ht), fun h => absurd h hm',
      fun hidle => ⟨d, fun _ => hidle, fun h => absurd rfl h, fun q hq => ?_, fun g => ?_⟩⟩
    · have hsum := hcharged.sum q hq
      rwa [hw] at hsum
    · rw [hcharged.ledger g, ← htgid, ← setTask_task_self b b.core.curr f]
      rfl

/-- A change of one task, with what `m₀` and `s'` add to it. -/
lemma accounts_change (s : Sys T E) (p : T) {f : TaskStruct → TaskStruct}
    (htgid : (f (s.task p)).tgid = (s.task p).tgid)
    (hidle : s.core.curr = p → currClass s ≠ .idle)
    (hcalled : (s.core.curr = p ∨ (s.task p).onRq = true) → (s.task p).schedClass = .wrr → called)
    {m₀ s' : Sys T E} (h₀ : Accounted K False ((beforeChange K s p).setTask p f) m₀)
    (hsame : (f (s.task p)).schedClass = .wrr → m₀ = (beforeChange K s p).setTask p f)
    (hafter : Accounted K False (if s.core.curr = p then classSetCurrTask K m₀ else m₀) s') :
    Accounts K called s (beforeChange K s p) s' := by
  have hbefore := accounted_beforeChange hhooks s p hcalled
  have htask := (keeps_beforeChange (K := K) s p).task p
  rw [← htask] at htgid hsame
  by_cases hcurr : s.core.curr = p
  · rw [if_pos hcurr] at hafter
    refine .changes hbefore (upToDate_beforeChange s hcurr) (hidle hcurr) ?_ hafter
    exact restamped_classSetCurrTask hhooks _ (hbefore.curr.trans hcurr) htgid h₀ hsame
  · rw [if_neg hcurr] at hafter
    have hset : Accounted K False (beforeChange K s p) ((beforeChange K s p).setTask p f) :=
      accounted_setTask _ p (fun heq => absurd (hbefore.curr.symm.trans heq) hcurr) htgid
    exact .stays (hbefore.trans (((hset.trans h₀).trans hafter).mono False.elim))

lemma accounts_changeTask (s : Sys T E) (p : T) {f : TaskStruct → TaskStruct}
    (htgid : (f (s.task p)).tgid = (s.task p).tgid)
    (hidle : s.core.curr = p → currClass s ≠ .idle)
    (hcalled : (s.core.curr = p ∨ (s.task p).onRq = true) → (s.task p).schedClass = .wrr → called)
    (head : Bool) (prevClass : SchedClass) (oldprio : ℤ) :
    Accounts K called s (beforeChange K s p)
      (checkClassChanged K (changeTask K s p f head) p prevClass oldprio) := by
  refine accounts_change hhooks s p htgid hidle hcalled (.refl _) (fun _ => rfl) ?_
  refine Accounted.trans ?_ (accounted_checkClassChanged hhooks _ p prevClass oldprio)
  exact .ite (fun _ => accounted_enqueueTask hhooks _ p _) fun _ => .refl _

lemma accounts_schedMoveTask (s : Sys T E) (p : T) (groupPath : String)
    (hidle : s.core.curr = p → currClass s ≠ .idle)
    (hcalled : (s.core.curr = p ∨ (s.task p).onRq = true) → (s.task p).schedClass = .wrr → called) :
    Accounts K called s (beforeChange K s p) (schedMoveTask K s p groupPath) := by
  refine accounts_change hhooks s p (f := fun t => { t with schedTaskGroup := groupPath }) rfl
    hidle hcalled (.ite (fun _ => accounted_applyHook (hhooks.taskMoveGroup _ _ p _))
      fun _ => .refl _) (fun hwrr => if_neg ?_)
    (.ite (fun _ => accounted_enqueueTask hhooks _ p _) fun _ => .refl _)
  intro hfair
  have htask := (keeps_beforeChange (K := K) s p).task p
  rw [setTask_task_self] at hfair
  exact SchedClass.noConfusion (hfair.symm.trans
    ((congrArg TaskStruct.schedClass htask).trans hwrr))

/-! ## Switches -/

/-- A pick stamps the task it returns, and charges none of RT and WRR. -/
lemma accounted_offers {queued : E → SchedClass → Finset T} {wrr : List T} (hlaws : Laws K queued)
    (h : Consistent K queued s wrr) {c : SchedClass} {next : T} (hoffer : Offers K c s next s')
    (hup : UpToDate s) :
    Accounted K called s s' ∧ UpToDate s' ∧
      ((s'.task next).schedClass = .wrr →
        (s'.acct.se next).execStart = s'.acct.clockTask) := by
  have hclass := (h.offered hlaws hoffer).2.1
  have hother : ∀ d : SchedClass, (s.task next).schedClass = d → d ≠ .wrr →
      s' = s.applyHook (K.pickOther d s).2 → Accounted K called s s' ∧ UpToDate s' ∧
      ((s'.task next).schedClass = .wrr →
        (s'.acct.se next).execStart = s'.acct.clockTask) := by
    rintro d hd hne rfl
    have htimes := times_applyHook s (K.pickOther d s).2
    have hcore := (keeps_applyHook s (K.pickOther d s).2).core
    refine ⟨accounted_applyHook (hhooks.pick d s), fun hwrr => ?_, fun hwrr => ?_⟩
    · rw [currClass, Sys.task, hcore] at hwrr
      rw [hcore, Acct.se_eq htimes, (hhooks.pick d s).wrr _ hwrr, (Acct.clock_eq htimes).2.1,
        hhooks.pickClock]
      exact hup hwrr
    · rw [Sys.task, hcore] at hwrr
      exact absurd (hd.symm.trans hwrr) hne
  cases c with
  | rt =>
      obtain rfl := pickNextTaskRt_stamp hoffer
      exact ⟨accounted_stamp s next fun hwrr heq => heq ▸ hup hwrr, upToDate_stamp hup next,
        fun _ => by simp [Sys.setSe]⟩
  | wrr =>
      obtain rfl := pickNextTaskWrr_stamp hoffer
      have hstamp : Accounted K called s _ :=
        accounted_stamp s next fun hwrr heq => heq ▸ hup hwrr
      refine ⟨hstamp.trans (accounted_of_times rfl (.of_core rfl) rfl rfl),
        upToDate_stamp hup next, fun _ => by simp [wrrPicked, Sys.setSe]⟩
  | stop | fair | idle =>
      obtain ⟨-, rfl⟩ : _ ∧ s' = _ := by simpa [Offers, classPickNextTask, eq_comm] using hoffer
      exact hother _ hclass (by decide) rfl

lemma accounts_schedule {queued : E → SchedClass → Finset T} {wrr : List T}
    (hlaws : Laws K queued) {s₀ : Sys T E} (hpre : Accounted K True s₀ s) (h : Inv K queued s wrr)
    {a : ScheduleArgs T} (ha : ∀ p ∈ a.toWakeup, p ∈ s.core.tasklist)
    (hstep : schedule K s a = .ok s') : Accounts K True s₀ s' s' := by
  rcases h.schedule hlaws a ha with
    ⟨s₁, wrr', -, c, -, next, s₂, hmoves, hs₁, -, -, hoffer, hschedule, -⟩
  rw [hschedule] at hstep
  obtain rfl := Except.ok.inj hstep
  have hout := accounted_scheduleOut hhooks s a
  have hput : Accounted K True s s₁ := by
    rw [hs₁]
    exact hout.trans (accounted_putPrevTask hhooks _ _)
  have hup : UpToDate s₁ := by
    rw [hs₁]
    refine upToDate_classPutPrevTask _ ?_
    have hclock : Keeps (scheduleOut K s a) (if ((scheduleOut K s a).task s.core.curr).onRq ∨
        (scheduleOut K s a).acct.skipClockUpdate < 0 then updateRqClock K (scheduleOut K s a)
        else scheduleOut K s a) := .ite (keeps_updateRqClock K _) (.refl _)
    rw [hclock.core, hout.curr]
  rcases accounted_offers hhooks hlaws hmoves.consistent hoffer hup with ⟨hpick, hup₂, hnext⟩
  rw [hpre.curr]
  exact .switches ((hpre.trans hput).trans hpick) hup₂ hnext

/-! ## Steps -/

/-- **What every operation does to the execution times.** -/
theorem step_accounts {queued : E → SchedClass → Finset T} {wrr : List T} (hlaws : Laws K queued)
    (h : Inv K queued s wrr) {op : Op T} (hop : Allowed s op) (hpick : op ≠ .pickNextTask)
    (hstep : step K s op = .ok s') :
    Accounts K (ChargesWrr s op) s (handover K s op s') s' := by
  have hidle : ∀ p ∈ s.core.tasklist, s.core.curr = p → currClass s ≠ .idle := by
    rintro p hp rfl
    exact h.core.schedClass_ne_idle hp
  cases op with
  | fork p =>
      obtain rfl := Except.ok.inj hstep
      refine .stays (accounted_schedFork hhooks s p hop.1 ?_)
      rintro rfl
      exact hop.1 (h.curr_listed hop.2)
  | wakeUpNewTask p =>
      obtain rfl := Except.ok.inj hstep
      exact .stays (accounted_wakeUpNewTask hhooks s p)
  | tryToWakeUp p state =>
      obtain rfl := Except.ok.inj hstep
      exact .stays (accounted_tryToWakeUp hhooks s p state)
  | setCurrentState state =>
      obtain rfl := Except.ok.inj hstep
      exact .stays (accounted_setTask s _ (fun _ => rfl) rfl)
  | schedule a => exact accounts_schedule hhooks hlaws (.refl s) h hop hstep
  | schedYield a =>
      rcases h.toConsistent.yieldTask hlaws with ⟨wrr₁, hyield⟩
      exact accounts_schedule hhooks hlaws (accounted_yieldTask hhooks s) (hyield.inv h)
        (fun p hp => hyield.tasklist p (hop p hp)) hstep
  | schedulerTick =>
      obtain rfl := Except.ok.inj hstep
      exact .stays (accounted_schedulerTick hhooks s)
  | pickNextTask => exact absurd rfl hpick
  | setscheduler p policy prio resetOnFork =>
      obtain rfl := Except.ok.inj hstep
      rw [setschedulerLocked_eq]
      split_ifs with hstop hsame
      · exact .stays (.refl s)
      · exact .stays (.refl s)
      · refine accounts_changeTask hhooks s p ?_ (hidle p hop.1)
          (fun hp hwrr => ⟨hstop, hsame, hp, hwrr⟩) false _ _
        exact setscheduler_tgid _ policy prio
  | setUserNice p nice =>
      obtain rfl := Except.ok.inj hstep
      exact .stays (accounted_setUserNice hhooks s p nice fun hnice hrt hon hwrr =>
        ⟨hnice, hrt, hon, hwrr⟩)
  | setTopPiWaiter p prio =>
      obtain rfl := Except.ok.inj hstep
      exact .stays (accounted_setTask s p (fun _ => rfl) rfl)
  | rtMutexSetprio p prio =>
      replace hstep : rtMutexSetprio K s p prio = .ok s' := hstep
      rw [rtMutexSetprio_eq s p hop.2] at hstep
      obtain rfl := Except.ok.inj hstep
      split_ifs with hboot
      · exact .stays ((keeps_warnOn s _ _).accounted (by rw [acct_warnOn]))
      · exact accounts_changeTask hhooks s p (f := fun t => boostedTask t prio) rfl
          (hidle p (hop.1.resolve_right hboot)) (fun hp hwrr => ⟨hp, hwrr⟩) _ _ _
  | schedMoveTask p groupPath =>
      obtain rfl := Except.ok.inj hstep
      exact accounts_schedMoveTask hhooks s p groupPath (hidle p hop) fun hp hwrr => ⟨hp, hwrr⟩
  | writeField p field =>
      obtain rfl := Except.ok.inj hstep
      exact .stays (accounted_setTask s p (fun _ => field.write_schedClass _) (field.write_tgid _))
  | schedRtPeriodTimer overrun =>
      obtain rfl := Except.ok.inj hstep
      exact .stays (accounted_timer s overrun)

end

end Sched
