import OsPrj.Sched.Invariant

/-!
# What the operations write

Most operations leave the scheduling parameters of all tasks alone.  `Writes s op c` lists what each
operation makes of the core of the state `s`; `step_writes` says that the list is complete.
-/

namespace Sched

variable {T E : Type} [DecidableEq T]

/-! ## Operations that write no scheduling parameter -/

/-- The task structure up to the fields that sleeping and waking, group moves, a new nice value of a
real-time task and the code outside `kernel/sched` write. -/
def TaskStruct.params (t : TaskStruct) : TaskStruct :=
  { t with
    state := 0, onRq := false, schedTaskGroup := "", staticPrio := 0, hasMm := false
    frozen := false, wqWorker := false, rlimitRttime := 0, rlimitMaxRttime := 0, rlimitRtprio := 0
    rlimitNice := 0 }

lemma TaskField.write_params (field : TaskField) (t : TaskStruct) :
    (field.write t).params = t.params := by
  cases field <;> rfl

/-- The scheduling parameters of all tasks are the same. -/
structure SameParams (c c' : Core T) : Prop where
  idle : c'.idle = c.idle
  stop : c'.stop = c.stop
  task : ∀ p, (c'.task p).params = (c.task p).params

/-- Moreover no task goes on or off the run queue, and the current task is the same. -/
structure SameQueued (c c' : Core T) : Prop extends SameParams c c' where
  curr : c'.curr = c.curr
  onRq : ∀ p, (c'.task p).onRq = (c.task p).onRq

section

variable {c c' c'' : Core T} {s s' : Sys T E} {p : T}

omit [DecidableEq T] in
lemma SameParams.refl (c : Core T) : SameParams c c := ⟨rfl, rfl, fun _ => rfl⟩

omit [DecidableEq T] in
lemma SameParams.trans (h : SameParams c c') (h' : SameParams c' c'') : SameParams c c'' :=
  ⟨h'.idle.trans h.idle, h'.stop.trans h.stop, fun p => (h'.task p).trans (h.task p)⟩

omit [DecidableEq T] in
lemma SameQueued.refl (c : Core T) : SameQueued c c := ⟨.refl c, rfl, fun _ => rfl⟩

omit [DecidableEq T] in
lemma Keeps.sameQueued (h : Keeps s s') : SameQueued s.core s'.core := by
  rw [h.core]
  exact .refl _

omit [DecidableEq T] in
lemma Keeps.sameParams (h : Keeps s s') : SameParams s.core s'.core := h.sameQueued.toSameParams

lemma sameParams_setTask (s : Sys T E) (p : T) {f : TaskStruct → TaskStruct}
    (hparams : (f (s.task p)).params = (s.task p).params) :
    SameParams s.core (s.setTask p f).core := by
  refine ⟨rfl, rfl, fun q => ?_⟩
  rw [setTask_core]
  rcases eq_or_ne q p with rfl | hne
  · rw [Core.setTask_self, hparams]
  · rw [Core.setTask_of_ne _ hne]

lemma sameQueued_setTask (s : Sys T E) (p : T) {f : TaskStruct → TaskStruct}
    (hparams : (f (s.task p)).params = (s.task p).params)
    (hon : (f (s.task p)).onRq = (s.task p).onRq) : SameQueued s.core (s.setTask p f).core := by
  refine ⟨sameParams_setTask s p hparams, rfl, fun q => ?_⟩
  rw [setTask_core]
  rcases eq_or_ne q p with rfl | hne
  · rw [Core.setTask_self, hon]
  · rw [Core.setTask_of_ne _ hne]

variable (K : Kernel T E)

lemma sameParams_setState (s : Sys T E) (p : T) (state : ℕ) :
    SameParams s.core (s.setTask p fun t => { t with state := state }).core :=
  sameParams_setTask s p rfl

lemma sameParams_ttwuDoWakeup (s : Sys T E) (p : T) :
    SameParams s.core (ttwuDoWakeup K s p).core :=
  (quiet_checkPreemptCurr (quietHooks_unit K) s p).toKeeps.sameParams.trans
    (sameParams_setState _ p taskRunning)

lemma sameParams_activate (s : Sys T E) (p : T) (flags : EnqueueFlags) :
    SameParams s.core
      ((activateTask K s p flags).setTask p fun t => { t with onRq := true }).core :=
  (keeps_activateTask K s p flags).sameParams.trans (sameParams_setTask _ p rfl)

lemma sameParams_tryToWakeUp (s : Sys T E) (p : T) (state : ℕ) :
    SameParams s.core (tryToWakeUp K s p state).core := by
  rw [tryToWakeUp]
  split_ifs
  · exact .refl _
  · exact sameParams_ttwuDoWakeup K s p
  · exact (sameParams_activate K s p _).trans (sameParams_ttwuDoWakeup K _ p)

lemma sameParams_tryToWakeUpLocal (s : Sys T E) (p : T) :
    SameParams s.core (tryToWakeUpLocal K s p).core := by
  rw [tryToWakeUpLocal]
  split_ifs
  · exact (keeps_warnOn s true .wakeCurrent).sameParams
  · exact .refl _
  · exact sameParams_ttwuDoWakeup K s p
  · exact (sameParams_activate K s p _).trans (sameParams_ttwuDoWakeup K _ p)

lemma sameParams_scheduleOut (s : Sys T E) (a : ScheduleArgs T) :
    SameParams s.core (scheduleOut K s a).core := by
  have hout : SameParams s.core ((deactivateTask K s s.core.curr true).setTask s.core.curr fun t =>
      { t with onRq := false }).core :=
    (keeps_deactivateTask K s s.core.curr true).sameParams.trans
      (sameParams_setTask _ _ rfl)
  have hite : ∀ {c : Prop} [Decidable c] {a b : Sys T E}, SameParams s.core a.core →
      SameParams s.core b.core → SameParams s.core (if c then a else b).core := by
    intro c _ a b ha hb
    split_ifs
    · exact ha
    · exact hb
  rw [scheduleOut]
  refine hite (hite (sameParams_setState s _ _) (hite ?_ hout)) (.refl _)
  cases a.toWakeup with
  | none => exact hout
  | some p => exact hout.trans (sameParams_tryToWakeUpLocal K _ p)

variable {K} {queued : E → SchedClass → Finset T} {wrr : List T}

lemma sameQueued_picked (h : Consistent K queued s wrr) (hK : Laws K queued) {c : SchedClass}
    (hoffer : Offers K c s p s') : SameQueued s.core s'.core := by
  have hcore : s'.core = s.core := (h.offered hK hoffer).1.quiet.core
  rw [hcore]
  exact .refl _

lemma sameParams_schedule (hK : Laws K queued) (h : Inv K queued s wrr) {a : ScheduleArgs T}
    (ha : ∀ p ∈ a.toWakeup, p ∈ s.core.tasklist) (hstep : schedule K s a = .ok s') :
    SameParams s.core s'.core := by
  rcases h.schedule hK a ha with
    ⟨s₁, wrr', -, c, -, next, s₂, hmoves, rfl, -, -, hoffer, hschedule, -⟩
  rw [hschedule] at hstep
  obtain rfl := Except.ok.inj hstep
  have hput := (quiet_putPrevTask (quietHooks_unit K) (scheduleOut K s a) s.core.curr).toKeeps
  have hpicked := (sameQueued_picked hmoves.consistent hK hoffer).toSameParams
  exact ((sameParams_scheduleOut K s a).trans hput.sameParams).trans
    (hpicked.trans ⟨rfl, rfl, fun _ => rfl⟩)

lemma sameParams_schedYield (hK : Laws K queued) (h : Inv K queued s wrr) {a : ScheduleArgs T}
    (ha : ∀ p ∈ a.toWakeup, p ∈ s.core.tasklist) (hstep : schedYield K s a = .ok s') :
    SameParams s.core s'.core := by
  rcases h.toConsistent.yieldTask hK with ⟨wrr₁, hyield⟩
  exact (keeps_yieldTask K s).sameParams.trans
    (sameParams_schedule hK (hyield.inv h) (fun p hp => hyield.tasklist p (ha p hp)) hstep)

lemma sameParams_wakeUpNewTask (s : Sys T E) (p : T) :
    SameParams s.core (wakeUpNewTask K s p).core :=
  (sameParams_activate K s p _).trans
    (quiet_checkPreemptCurr (quietHooks_unit K) _ p).toKeeps.sameParams

lemma sameQueued_schedMoveTask (s : Sys T E) (p : T) (groupPath : String) :
    SameQueued s.core (schedMoveTask K s p groupPath).core := by
  have hput := fun s : Sys T E => (quiet_classPutPrevTask (quietHooks_unit K) s p).toKeeps
  have hset := fun s : Sys T E => (quiet_classSetCurrTask (quietHooks_unit K) s).toKeeps
  have hdequeue : Keeps s (if (s.task p).onRq then dequeueTask K s p false else s) :=
    .ite (keeps_dequeueTask K s p false) (.refl s)
  have hcore : (schedMoveTask K s p groupPath).core =
      s.core.setTask p fun t => { t with schedTaskGroup := groupPath } := by
    have hout := hdequeue.trans (Keeps.ite (c := s.core.curr = p) (hput _) (.refl _))
    refine core_change hout ?_ { wakeup := false, head := false }
    exact .trans (.ite (keeps_applyHook _ _) (.refl _)) (.ite (hset _) (.refl _))
  rw [hcore]
  exact sameQueued_setTask s p (f := fun t => { t with schedTaskGroup := groupPath }) rfl rfl

lemma sameQueued_pickNextTask (hK : Laws K queued) (h : Inv K queued s wrr)
    (hstep : step K s .pickNextTask = .ok s') : SameQueued s.core s'.core := by
  rcases h.layout.pickNextTask hK h.wrrThrottled with ⟨-, c, -, p, s₁, -, -, hoffer, hpick⟩
  rw [step, hpick] at hstep
  obtain rfl := Except.ok.inj hstep
  exact sameQueued_picked h.toConsistent hK hoffer

lemma sameQueued_timer (s : Sys T E) (overrun : BitVec 64) :
    SameQueued s.core (doSchedRtPeriodTimer K.toConfig s overrun).core := by
  have hquiet : Quiet (fun _ : E => ()) _ (doSchedRtPeriodTimer K.toConfig s overrun) :=
    quiet_doSchedRtPeriodTimer K.toConfig s overrun
  rw [hquiet.core]
  exact .refl _

/-! ## All operations -/

/-- When an operation may leave the scheduling parameters and the run queue alone. -/
def Op.Spares (s : Sys T E) : Op T → Prop
  | .fork _ => False
  | .setscheduler p policy _ _ => s.core.stop = some p ∨ policy = (s.task p).policy
  | .rtMutexSetprio p _ => p = s.core.idle
  | .wakeUpNewTask _ | .tryToWakeUp _ _ | .schedule _ | .schedYield _ => False
  | _ => True

/-- The operations that put tasks on or off the run queue. -/
def Op.Moves : Op T → Prop
  | .wakeUpNewTask _ | .tryToWakeUp _ _ | .schedule _ | .schedYield _ => True
  | _ => False

/-- What the operations make of the core of `s`. -/
inductive Writes (s : Sys T E) : Op T → Core T → Prop where
  | same {op : Op T} {c : Core T} : SameQueued s.core c → op.Spares s → Writes s op c
  | moves {op : Op T} {c : Core T} : SameParams s.core c → op.Moves → Writes s op c
  | fork {p : T} : Writes s (.fork p) (s.core.fork p)
  | setscheduler {p : T} {policy prio : ℤ} {resetOnFork : Bool} : s.core.stop ≠ some p →
      ¬(policy = (s.task p).policy ∧ (rtPolicy policy = false ∨ prio = (s.task p).rtPriority)) →
      Writes s (.setscheduler p policy prio resetOnFork) (s.core.setTask p fun t =>
        setscheduler { t with schedResetOnFork := resetOnFork } policy prio)
  | setUserNice {p : T} {nice : ℤ} : -20 ≤ nice ∧ nice ≤ 19 →
      rtPolicy (s.task p).policy = false →
      Writes s (.setUserNice p nice) (s.core.setTask p fun t => renicedTask t nice)
  | setTopPiWaiter {p : T} {prio : Option ℤ} : Writes s (.setTopPiWaiter p prio)
      (s.core.setTask p fun t => { t with topPiWaiter := prio })
  | rtMutexSetprio {p : T} {prio : ℤ} : p ≠ s.core.idle →
      Writes s (.rtMutexSetprio p prio) (s.core.setTask p fun t => boostedTask t prio)
  | schedulerTick : (s.task s.core.curr).schedClass = .wrr →
      Writes s .schedulerTick (s.core.setTask s.core.curr incPrioWrr)

lemma writes_setscheduler (s : Sys T E) (p : T) (policy prio : ℤ) (resetOnFork : Bool) :
    Writes s (.setscheduler p policy prio resetOnFork)
      (setschedulerLocked K s p policy prio resetOnFork).2.core := by
  rw [setschedulerLocked_eq]
  split_ifs with hstop hsame
  · exact .same (.refl _) (.inl hstop)
  · exact .same (.refl _) (.inr hsame.1)
  · have hcheck : Keeps (changeTask K s p (fun t =>
          setscheduler { t with schedResetOnFork := resetOnFork } policy prio) false) _ :=
      (quiet_checkClassChanged (quietHooks_unit K) _ p (s.task p).schedClass
        (s.task p).prio).toKeeps
    rw [hcheck.core, core_changeTask]
    exact .setscheduler hstop hsame

lemma writes_rtMutexSetprio {prio : ℤ} (hprio : 0 ≤ prio ∧ prio ≤ maxPrio)
    (hstep : rtMutexSetprio K s p prio = .ok s') :
    Writes s (.rtMutexSetprio p prio) s'.core := by
  rw [rtMutexSetprio_eq s p hprio] at hstep
  obtain rfl := Except.ok.inj hstep
  split_ifs with hidle
  · rw [(keeps_warnOn s _ _).core]
    exact .same (.refl _) hidle
  · have hcheck : Keeps (changeTask K s p (fun t => boostedTask t prio)
          (decide ((s.task p).prio < prio))) _ :=
      (quiet_checkClassChanged (quietHooks_unit K) _ p (s.task p).schedClass
        (s.task p).prio).toKeeps
    rw [hcheck.core, core_changeTask]
    exact .rtMutexSetprio hidle

/-- What `set_user_nice` writes, unless the nice value is the old one or no nice value at all. -/
lemma core_setUserNice {nice : ℤ}
    (hnice : ¬(prioToNice (s.task p).staticPrio = nice ∨ nice < -20 ∨ nice > 19)) :
    (setUserNice K s p nice).core = s.core.setTask p fun t => nicedTask t nice := by
  cases hrt : rtPolicy (s.task p).policy with
  | true =>
      rw [setUserNice, if_neg hnice, if_pos hrt, setTask_core]
      refine Core.setTask_eq ?_
      rw [nicedTask, if_pos hrt]
  | false =>
      have hquiet : Quiet (fun _ : E => ()) _ (setUserNice K s p nice) :=
        quiet_setUserNice hnice hrt
      have hdequeue : Keeps s (if (s.task p).onRq then dequeueTask K s p false else s) :=
        .ite (keeps_dequeueTask K s p false) (.refl s)
      rw [hquiet.core, core_change hdequeue (.refl _)]
      refine Core.setTask_eq ?_
      rw [nicedTask, hrt]
      rfl

lemma writes_setUserNice (s : Sys T E) (p : T) (nice : ℤ) :
    Writes s (.setUserNice p nice) (setUserNice K s p nice).core := by
  by_cases hout : prioToNice (s.task p).staticPrio = nice ∨ nice < -20 ∨ nice > 19
  · rw [setUserNice, if_pos hout]
    exact .same (.refl _) trivial
  · rw [core_setUserNice hout]
    cases hrt : rtPolicy (s.task p).policy with
    | true =>
        have hniced : nicedTask (s.task p) nice = { s.task p with staticPrio := niceToPrio nice } :=
          if_pos hrt
        refine .same (sameQueued_setTask s p (f := fun t => nicedTask t nice) ?_ ?_) trivial
        · rw [hniced]
          rfl
        · rw [hniced]
    | false =>
        have hniced : nicedTask (s.task p) nice = renicedTask (s.task p) nice :=
          if_neg (by simp [hrt])
        rw [Core.setTask_eq (g := fun t => renicedTask t nice) hniced]
        exact .setUserNice (by omega) hrt

lemma writes_schedulerTick (s : Sys T E) : Writes s .schedulerTick (schedulerTick K s).core := by
  have hclock := keeps_updateRqClock (K := K) s
  rw [schedulerTick]
  rcases keeps_classTaskTick (K := K) (updateRqClock K s) with hkeeps | ⟨hclass, hkeeps⟩
  · exact .same (hclock.trans hkeeps).sameQueued trivial
  · rw [Sys.task, hclock.core] at hclass
    rw [hkeeps.core, setTask_core, hclock.core]
    exact .schedulerTick hclass

/-- **What an operation writes.** -/
theorem step_writes (hK : Laws K queued) (h : Inv K queued s wrr) {op : Op T} (hop : Allowed s op)
    (hstep : step K s op = .ok s') : Writes s op s'.core := by
  cases op with
  | fork p =>
      obtain rfl := Except.ok.inj hstep
      have hcore : (schedFork K s p).core = s.core.fork p := by
        rw [(quiet_schedFork (quietHooks_unit K) s p).core, core_forkedSys]
      rw [hcore]
      exact .fork
  | setscheduler p policy prio resetOnFork =>
      obtain rfl := Except.ok.inj hstep
      exact writes_setscheduler s p policy prio resetOnFork
  | rtMutexSetprio p prio => exact writes_rtMutexSetprio hop.2 hstep
  | setUserNice p nice =>
      obtain rfl := Except.ok.inj hstep
      exact writes_setUserNice s p nice
  | schedulerTick =>
      obtain rfl := Except.ok.inj hstep
      exact writes_schedulerTick s
  | setTopPiWaiter p prio =>
      obtain rfl := Except.ok.inj hstep
      exact .setTopPiWaiter
  | schedule a => exact .moves (sameParams_schedule hK h hop hstep) trivial
  | schedYield a => exact .moves (sameParams_schedYield hK h hop hstep) trivial
  | pickNextTask => exact .same (sameQueued_pickNextTask hK h hstep) trivial
  | wakeUpNewTask p =>
      obtain rfl := Except.ok.inj hstep
      exact .moves (sameParams_wakeUpNewTask s p) trivial
  | tryToWakeUp p state =>
      obtain rfl := Except.ok.inj hstep
      exact .moves (sameParams_tryToWakeUp K s p state) trivial
  | setCurrentState state =>
      obtain rfl := Except.ok.inj hstep
      exact .same (sameQueued_setTask s _ rfl rfl) trivial
  | schedMoveTask p groupPath =>
      obtain rfl := Except.ok.inj hstep
      exact .same (sameQueued_schedMoveTask s p groupPath) trivial
  | writeField p field =>
      obtain rfl := Except.ok.inj hstep
      exact .same (sameQueued_setTask s p (field.write_params _) (field.write_onRq _)) trivial
  | schedRtPeriodTimer overrun =>
      obtain rfl := Except.ok.inj hstep
      exact .same (sameQueued_timer s overrun) trivial

/-- **A rule for the tasks of a run**: what holds of them at the start and what no write takes away
holds in every state. -/
theorem Run.forall_task {P : TaskStruct → Prop} {ok : Sys T E → Op T → Prop} {boot : Boot T}
    (hK : Laws K queued) (hok : ∀ s op, ok s op → Allowed s op)
    (hinit : ∀ p, P ((Sched.init K boot).task p))
    (hwrites : ∀ {s : Sys T E} {op : Op T} {c : Core T}, ok s op → Writes s op c →
      (∀ p, (s.task p).Valid) → (∀ p, P (s.task p)) → ∀ p, P (c.task p))
    (h : Run K (Sched.init K boot) ok s) (p : T) : P (s.task p) := by
  induction h generalizing p with
  | init => exact hinit p
  | step hrun hop hstep ih =>
      rcases Reachable.inv hK (hrun.mono hok) with ⟨wrr, hinv⟩
      exact hwrites hop (step_writes hK hinv (hok _ _ hop) hstep) hinv.core.valid ih p

end

end Sched
