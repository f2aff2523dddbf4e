import OsPrj.Sched.Books

/-!
# nr_uninterruptible

`deactivate_task` counts a task that goes to sleep uninterruptibly, `activate_task` takes it off the
count again, by the state that the task has then.  Nobody writes that state in between, and so **the
counter is the number of the tasks that sleep uninterruptibly** (`nr_active_counts`).
-/

namespace Sched

variable {T E : Type} [DecidableEq T]

/-- The tasks that `rq->nr_uninterruptible` is meant to count. -/
def Core.blocked (c : Core T) : Finset T :=
  c.tasklist.toFinset.filter fun p =>
    (c.task p).onRq = false ∧ taskContributesToLoad (c.task p) = true

/-- What tells whether a task is blocked. -/
def TaskStruct.sleep (t : TaskStruct) : Bool × ℕ × Bool := (t.onRq, t.state, t.frozen)

/-- `nr_active` of `calc_load_fold_active` -/
def nrActive (s : Sys T E) : ℤ := s.queues.nrRunning + s.acct.nrUninterruptible

/-! ## Who is blocked -/

section Tasks

variable {t t' : TaskStruct}

lemma TaskStruct.onRq_of_sleep (h : t'.sleep = t.sleep) : t'.onRq = t.onRq := congrArg Prod.fst h

lemma TaskStruct.contributes_of_sleep (h : t'.sleep = t.sleep) :
    taskContributesToLoad t' = taskContributesToLoad t := by
  have hrest : (t'.state, t'.frozen) = (t.state, t.frozen) := congrArg Prod.snd h
  rw [Prod.mk.injEq] at hrest
  rw [taskContributesToLoad, taskContributesToLoad, hrest.1, hrest.2]

@[simp] lemma setLoadWeight_sleep (t : TaskStruct) : (setLoadWeight t).sleep = t.sleep := by
  rcases setLoadWeight_eq t with ⟨load, h⟩
  rw [h]
  rfl

lemma setscheduler_sleep (t : TaskStruct) (policy prio : ℤ) :
    (setscheduler t policy prio).sleep = t.sleep := by
  rw [setscheduler, setLoadWeight_sleep]
  rfl

lemma TaskField.write_sleep {field : TaskField} (hflags : field.inFlags = false) (t : TaskStruct) :
    (field.write t).sleep = t.sleep := by
  cases field with
  | wqWorker flag | frozen flag => exact Bool.noConfusion hflags
  | rlimitRttime soft hard | rlimitRtprio soft | rlimitNice soft | mm hasMm => rfl

lemma nicedTask_sleep (t : TaskStruct) (nice : ℤ) : (nicedTask t nice).sleep = t.sleep := by
  rw [nicedTask, renicedTask, effectivePrio_eq]
  split_ifs
  · rfl
  · exact setLoadWeight_sleep { t with staticPrio := niceToPrio nice }
  · exact setLoadWeight_sleep { t with staticPrio := niceToPrio nice }

lemma resetTask_state (t : TaskStruct) : (resetTask t).state = t.state := by
  have hload : ∀ t : TaskStruct, (setLoadWeight t).state = t.state := by
    intro t
    rcases setLoadWeight_eq t with ⟨load, h⟩
    rw [h]
  rw [resetTask]
  split_ifs <;> simp [hload]

/-- A child starts running. -/
lemma forkedTask_state (t : TaskStruct) : (forkedTask t).state = taskRunning := by
  rw [forkedTask_eq]
  exact resetTask_state _

end Tasks

section

variable {c c' : Core T} {p : T} {f : TaskStruct → TaskStruct}

lemma Core.mem_blocked : p ∈ c.blocked ↔
    p ∈ c.tasklist ∧ (c.task p).onRq = false ∧ taskContributesToLoad (c.task p) = true := by
  rw [blocked, Finset.mem_filter, List.mem_toFinset]

/-- Writing a task that neither was nor is blocked. -/
lemma Core.blocked_setTask_of_on (hon : (c.task p).onRq = true)
    (hon' : (f (c.task p)).onRq = true) :
    (c.setTask p f).blocked = c.blocked := by
  ext q
  rw [mem_blocked, mem_blocked]
  rcases eq_or_ne q p with rfl | hq
  · rw [setTask_self, hon, hon']
    simp
  · rw [setTask_of_ne _ hq]
    rfl

/-- Writing fields that do not tell whether the task is blocked. -/
lemma Core.blocked_setTask_of_sleep (hsleep : (f (c.task p)).sleep = (c.task p).sleep) :
    (c.setTask p f).blocked = c.blocked := by
  ext q
  rw [mem_blocked, mem_blocked]
  rcases eq_or_ne q p with rfl | hq
  · rw [setTask_self, TaskStruct.contributes_of_sleep hsleep, TaskStruct.onRq_of_sleep hsleep]
    rfl
  · rw [setTask_of_ne _ hq]
    rfl

/-- Going on the run queue. -/
lemma Core.blocked_setTask_on (hon : (f (c.task p)).onRq = true) :
    (c.setTask p f).blocked = c.blocked.erase p := by
  ext q
  rw [Finset.mem_erase, mem_blocked, mem_blocked]
  rcases eq_or_ne q p with rfl | hq
  · rw [setTask_self, hon]
    simp
  · rw [setTask_of_ne _ hq]
    exact ⟨fun h => ⟨hq, h⟩, fun h => h.2⟩

/-- Going off the run queue. -/
lemma Core.blocked_setTask_off (hp : p ∈ c.tasklist) (hoff : (f (c.task p)).onRq = false)
    (hload : taskContributesToLoad (f (c.task p)) = taskContributesToLoad (c.task p)) :
    (c.setTask p f).blocked =
      if taskContributesToLoad (c.task p) then insert p c.blocked else c.blocked.erase p := by
  ext q
  rcases eq_or_ne q p with rfl | hq
  · have hlisted : q ∈ (c.setTask q f).tasklist := hp
    rw [mem_blocked, setTask_self, hoff, hload]
    split_ifs with hcontributes
    · simp [hlisted, hcontributes]
    · simp [hcontributes]
  · have hsame : q ∈ (c.setTask p f).blocked ↔ q ∈ c.blocked := by
      rw [mem_blocked, mem_blocked, setTask_of_ne _ hq]
      rfl
    rw [hsame]
    split_ifs
    · rw [Finset.mem_insert, or_iff_right hq]
    · rw [Finset.mem_erase, and_iff_right hq]

/-- A child starts running, and off the run queue. -/
lemma Core.blocked_fork (hp : p ∉ c.tasklist) : (c.fork p).blocked = c.blocked := by
  ext q
  rw [mem_blocked, mem_blocked]
  rcases eq_or_ne q p with rfl | hq
  · rw [fork_self, taskContributesToLoad, forkedTask_state]
    simp [hp, taskRunning]
  · rw [fork_of_ne _ hq]
    have hlist : q ∈ (c.fork p).tasklist ↔ q ∈ c.tasklist := by
      simp [fork, hq]
    rw [hlist]

end

/-! ## The counter -/

/-- The counter is the number of the blocked tasks. -/
def Balanced (s : Sys T E) : Prop := s.acct.nrUninterruptible = s.core.blocked.card

section

variable {K : Kernel T E} {queued : E → SchedClass → Finset T} {s s' : Sys T E} {wrr : List T}
  {p : T}

lemma Balanced.congr (h : Balanced s) (hbooks : SameBooks s s')
    (hblocked : s'.core.blocked = s.core.blocked) : Balanced s' := by
  rw [Balanced, hbooks.nrUninterruptible, hblocked]
  exact h

lemma Balanced.congr_nr (h : Balanced s)
    (hnr : s'.acct.nrUninterruptible = s.acct.nrUninterruptible)
    (hblocked : s'.core.blocked = s.core.blocked) : Balanced s' := by
  rw [Balanced, hnr, hblocked]
  exact h

lemma Balanced.keeps (h : Balanced s) (hbooks : SameBooks s s') (hcore : s'.core = s.core) :
    Balanced s' :=
  h.congr hbooks (by rw [hcore])

omit [DecidableEq T] in
lemma addUninterruptible_nr (s : Sys T E) (p : T) (n : ℤ) :
    (addUninterruptible s p n).acct.nrUninterruptible
      = s.acct.nrUninterruptible + if taskContributesToLoad (s.task p) then n else 0 := by
  rw [addUninterruptible]
  split_ifs
  · rfl
  · rw [add_zero]

/-- **`activate_task` takes a blocked task off the count.** -/
lemma Balanced.activate (h : Balanced s) (hp : p ∈ s.core.tasklist)
    (hoff : (s.task p).onRq = false) (flags : EnqueueFlags) :
    Balanced ((activateTask K s p flags).setTask p fun t => { t with onRq := true }) := by
  have hbooks : SameBooks (addUninterruptible s p (-1)) (activateTask K s p flags) :=
    sameBooks_enqueueTask _ p flags
  have hcore := (keeps_activateTask K s p flags).setTask_core p fun t => { t with onRq := true }
  rw [Balanced] at h ⊢
  rw [hcore, Core.blocked_setTask_on rfl]
  change (activateTask K s p flags).acct.nrUninterruptible = _
  rw [hbooks.nrUninterruptible, addUninterruptible_nr, h]
  split_ifs with hload
  · have hmem : p ∈ s.core.blocked := Core.mem_blocked.mpr ⟨hp, hoff, hload⟩
    have hcard := Finset.card_erase_add_one hmem
    omega
  · have hmem : p ∉ s.core.blocked := fun hmem => hload (Core.mem_blocked.mp hmem).2.2
    rw [Finset.erase_eq_of_notMem hmem, add_zero]

/-- **`deactivate_task` counts a task that becomes blocked.** -/
lemma Balanced.deactivate (h : Balanced s) (hp : p ∈ s.core.tasklist)
    (hon : (s.task p).onRq = true) (sleep : Bool) :
    Balanced ((deactivateTask K s p sleep).setTask p fun t => { t with onRq := false }) := by
  have hbooks : SameBooks (addUninterruptible s p 1) (deactivateTask K s p sleep) :=
    sameBooks_dequeueTask _ p sleep
  have hcore := (keeps_deactivateTask K s p sleep).setTask_core p fun t => { t with onRq := false }
  have hmem : p ∉ s.core.blocked := by
    intro hmem
    rw [Core.mem_blocked, hon] at hmem
    exact Bool.noConfusion hmem.2.1
  rw [Balanced] at h ⊢
  rw [hcore, Core.blocked_setTask_off hp rfl rfl]
  change (deactivateTask K s p sleep).acct.nrUninterruptible = _
  rw [hbooks.nrUninterruptible, addUninterruptible_nr, h]
  change _ = (Finset.card (if taskContributesToLoad (s.task p) then _ else _) : ℤ)
  split_ifs
  · rw [Finset.card_insert_of_notMem hmem]
    rfl
  · rw [Finset.erase_eq_of_notMem hmem, add_zero]

lemma Balanced.ttwuDoWakeup (h : Balanced s) (hon : (s.task p).onRq = true) :
    Balanced (ttwuDoWakeup K s p) := by
  have hkeeps := (quiet_checkPreemptCurr (quietHooks_unit K) s p).toKeeps
  refine h.congr ((sameBooks_checkPreemptCurr s p).trans (sameBooks_setTask _ p _)) ?_
  rw [Sched.ttwuDoWakeup, hkeeps.setTask_core, Core.blocked_setTask_of_on hon hon]

lemma Balanced.ttwuActivate (h : Balanced s) (hp : p ∈ s.core.tasklist)
    (hoff : (s.task p).onRq = false) :
    Balanced (Sched.ttwuDoWakeup K (Sched.ttwuActivate K s p) p) := by
  have hactivate : Balanced (Sched.ttwuActivate K s p) := h.activate hp hoff _
  refine hactivate.ttwuDoWakeup ?_
  rw [Sched.ttwuActivate, setTask_task_self]

lemma Balanced.tryToWakeUp (h : Balanced s) (hp : p ∈ s.core.tasklist) (state : ℕ) :
    Balanced (tryToWakeUp K s p state) := by
  rw [Sched.tryToWakeUp]
  split_ifs with hstate hon
  · exact h
  · exact h.ttwuDoWakeup hon
  · exact h.ttwuActivate hp (Bool.eq_false_of_not_eq_true hon)

lemma Balanced.tryToWakeUpLocal (h : Balanced s) (hp : p ∈ s.core.tasklist) :
    Balanced (tryToWakeUpLocal K s p) := by
  rw [Sched.tryToWakeUpLocal]
  split_ifs with hcurr hstate hon
  · exact h.keeps (sameBooks_warnOn s _ _) (keeps_warnOn s _ _).core
  · exact h
  · exact h.ttwuDoWakeup hon
  · exact h.ttwuActivate hp (Bool.eq_false_of_not_eq_true hon)

/-- The first half of `__schedule`. -/
lemma Balanced.scheduleOut (h : Balanced s) (hinv : Inv K queued s wrr) {a : ScheduleArgs T}
    (ha : ∀ p ∈ a.toWakeup, p ∈ s.core.tasklist) : Balanced (scheduleOut K s a) := by
  rw [Sched.scheduleOut]
  by_cases hsleep : (s.task s.core.curr).state ≠ 0 ∧ a.preemptActive = false
  · rw [if_pos hsleep]
    have hne : s.core.curr ≠ s.core.idle := by
      intro heq
      refine hsleep.1 ?_
      rw [heq, Sys.task, hinv.core.idle]
      rfl
    have hon := hinv.curr.resolve_left hne
    have hout := h.deactivate (K := K) (hinv.curr_listed hne) hon true
    by_cases hsignal : a.signalPending = true
    · rw [if_pos hsignal]
      refine h.congr (sameBooks_setTask s _ _) ?_
      rw [setTask_core, Core.blocked_setTask_of_on hon hon]
    · rw [if_neg hsignal]
      by_cases hworker : (((deactivateTask K s s.core.curr true).setTask s.core.curr fun t =>
          { t with onRq := false }).task s.core.curr).wqWorker = true
      · rw [if_pos hworker]
        cases hwake : a.toWakeup with
        | none => exact hout
        | some p =>
            refine hout.tryToWakeUpLocal ?_
            rw [(keeps_deactivateTask K s s.core.curr true).setTask_core]
            exact ha p hwake
      · rw [if_neg hworker]
        exact hout
  · rw [if_neg hsleep]
    exact h

lemma Balanced.schedule (hK : Laws K queued) (h : Balanced s) (hinv : Inv K queued s wrr)
    {a : ScheduleArgs T} (ha : ∀ p ∈ a.toWakeup, p ∈ s.core.tasklist)
    (hstep : schedule K s a = .ok s') : Balanced s' := by
  rcases hinv.schedule hK a ha with
    ⟨s₁, wrr', -, c, -, next, s₂, hmoves, rfl, -, -, hoffer, hschedule, -⟩
  rw [hschedule] at hstep
  obtain rfl := Except.ok.inj hstep
  have hput := (quiet_putPrevTask (quietHooks_unit K) (Sched.scheduleOut K s a)
    s.core.curr).toKeeps
  have hbalanced := (h.scheduleOut hinv ha).keeps (sameBooks_putPrevTask _ s.core.curr) hput.core
  have hcore : s₂.core = _ := (hmoves.consistent.offered hK hoffer).1.quiet.core
  refine hbalanced.congr ((sameBooks_offers hoffer).trans ⟨rfl, fun _ => rfl⟩) ?_
  rw [← hcore]
  rfl

lemma Balanced.pickNextTask (hK : Laws K queued) (h : Balanced s) (hinv : Inv K queued s wrr)
    (hstep : step K s .pickNextTask = .ok s') : Balanced s' := by
  rcases hinv.layout.pickNextTask hK hinv.wrrThrottled with ⟨-, c, -, p, s₁, -, -, hoffer, hpick⟩
  rw [step, hpick] at hstep
  obtain rfl := Except.ok.inj hstep
  exact h.keeps (sameBooks_offers hoffer) (hinv.offered hK hoffer).1.quiet.core

lemma Balanced.schedulerTick (h : Balanced s) : Balanced (schedulerTick K s) := by
  have hclock : (updateRqClock K s).core = s.core := (keeps_updateRqClock K s).core
  have hbalanced := h.keeps (sameBooks_updateRqClock K s) hclock
  refine hbalanced.congr_nr (nrUninterruptible_classTaskTick _) ?_
  rcases keeps_classTaskTick K (updateRqClock K s) with hkeeps | ⟨-, hkeeps⟩
  · rw [Sched.schedulerTick, hkeeps.core]
  · rw [Sched.schedulerTick, hkeeps.core, setTask_core, Core.blocked_setTask_of_sleep rfl]

lemma Balanced.schedFork (h : Balanced s) (hp : p ∉ s.core.tasklist) :
    Balanced (schedFork K s p) := by
  refine h.congr_nr ?_ ?_
  · rw [schedFork_eq]
    split_ifs
    · exact (sameBooks_applyHook _ _).nrUninterruptible
    · rfl
  · have hquiet : Quiet (fun _ : E => ()) _ (Sched.schedFork K s p) :=
      quiet_schedFork (quietHooks_unit K) s p
    rw [hquiet.core, core_forkedSys, Core.blocked_fork hp]

/-- **What one operation preserves.** -/
theorem Balanced.step (hK : Laws K queued) (h : Balanced s) (hinv : Inv K queued s wrr) {op : Op T}
    (hop : Allowed s op) (hstep : Sched.step K s op = .ok s') : Balanced s' := by
  cases op with
  | fork p =>
      obtain rfl := Except.ok.inj hstep
      exact h.schedFork hop.1
  | wakeUpNewTask p =>
      obtain rfl := Except.ok.inj hstep
      have hactivate := h.activate (K := K) hop.1 hop.2.2 { wakeup := false, head := false }
      exact hactivate.keeps (sameBooks_checkPreemptCurr _ p)
        (quiet_checkPreemptCurr (quietHooks_unit K) _ p).toKeeps.core
  | tryToWakeUp p state =>
      obtain rfl := Except.ok.inj hstep
      exact h.tryToWakeUp hop state
  | setCurrentState state =>
      obtain rfl := Except.ok.inj hstep
      have hon := hinv.curr.resolve_left hop
      refine h.congr (sameBooks_setTask s _ _) ?_
      rw [setTask_core, Core.blocked_setTask_of_on hon hon]
  | schedule a => exact h.schedule hK hinv hop hstep
  | schedYield a =>
      rcases hinv.toConsistent.yieldTask hK with ⟨wrr₁, hyield⟩
      have hbalanced := h.keeps (sameBooks_yieldTask (K := K) s) (keeps_yieldTask K s).core
      exact hbalanced.schedule hK (hyield.inv hinv)
        (fun p hp => hyield.tasklist p (hop p hp)) hstep
  | schedulerTick =>
      obtain rfl := Except.ok.inj hstep
      exact h.schedulerTick
  | pickNextTask => exact h.pickNextTask hK hinv hstep
  | setscheduler p policy prio resetOnFork =>
      obtain rfl := Except.ok.inj hstep
      rw [setschedulerLocked_eq]
      split_ifs
      · exact h
      · exact h
      · refine h.congr ((sameBooks_changeTask s p _ false).trans
          (sameBooks_checkClassChanged _ p _ _)) ?_
        rw [(quiet_checkClassChanged (quietHooks_unit K) _ p _ _).toKeeps.core, core_changeTask,
          Core.blocked_setTask_of_sleep (setscheduler_sleep _ policy prio)]
  | setUserNice p nice =>
      obtain rfl := Except.ok.inj hstep
      refine h.congr (sameBooks_setUserNice s p nice) ?_
      by_cases hnice : prioToNice (s.task p).staticPrio = nice ∨ nice < -20 ∨ nice > 19
      · rw [setUserNice, if_pos hnice]
      · rw [core_setUserNice hnice, Core.blocked_setTask_of_sleep (nicedTask_sleep _ nice)]
  | setTopPiWaiter p prio =>
      obtain rfl := Except.ok.inj hstep
      refine h.congr (sameBooks_setTask s _ _) ?_
      rw [setTask_core, Core.blocked_setTask_of_sleep rfl]
  | rtMutexSetprio p prio =>
      rw [Sched.step, rtMutexSetprio_eq s p hop.2] at hstep
      obtain rfl := Except.ok.inj hstep
      split_ifs
      · exact h.keeps (sameBooks_warnOn s _ _) (keeps_warnOn s _ _).core
      · refine h.congr ((sameBooks_changeTask s p _ _).trans
          (sameBooks_checkClassChanged _ p _ _)) ?_
        rw [(quiet_checkClassChanged (quietHooks_unit K) _ p _ _).toKeeps.core, core_changeTask,
          Core.blocked_setTask_of_sleep rfl]
  | schedMoveTask p groupPath =>
      obtain rfl := Except.ok.inj hstep
      refine h.congr (sameBooks_schedMoveTask s p groupPath) ?_
      rw [core_schedMoveTask, Core.blocked_setTask_of_sleep rfl]
  | writeField p field =>
      obtain rfl := Except.ok.inj hstep
      refine h.congr (sameBooks_setTask s _ _) ?_
      cases hflags : field.inFlags with
      | true =>
          -- the current task sets its flags, and it does not sleep
          obtain rfl := hop.2 hflags
          have hon := hinv.curr.resolve_left fun hidle =>
            hinv.core.idleNotListed (hidle ▸ hop.1)
          rw [setTask_core, Core.blocked_setTask_of_on hon ((field.write_onRq _).trans hon)]
      | false => rw [setTask_core, Core.blocked_setTask_of_sleep (field.write_sleep hflags _)]
  | schedRtPeriodTimer overrun =>
      obtain rfl := Except.ok.inj hstep
      have hquiet : Quiet (fun _ : E => ()) _ (doSchedRtPeriodTimer K.toConfig s overrun) :=
        quiet_doSchedRtPeriodTimer K.toConfig s overrun
      exact h.keeps (sameBooks_doSchedRtPeriodTimer _ s overrun) hquiet.core

/-! ## Runs -/

lemma balanced_init (boot : Boot T) : Balanced (init K boot) := by
  have hnone : (init K boot).core.blocked = ∅ := by
    refine Finset.eq_empty_of_forall_notMem fun p hp => ?_
    have hload := (Core.mem_blocked.mp hp).2.2
    rcases init_task (K := K) boot p with ⟨htask, -⟩ | htask | htask
    · rw [show (init K boot).core.task p = _ from htask] at hload
      exact absurd hload (by simp [taskContributesToLoad, idleTask, initTask, taskRunning,
        taskUninterruptible])
    · rw [show (init K boot).core.task p = _ from htask] at hload
      exact absurd hload (by simp [taskContributesToLoad, stopTask, initTask, taskRunning,
        taskInterruptible, taskUninterruptible])
    · rw [show (init K boot).core.task p = _ from htask] at hload
      exact absurd hload (by simp [taskContributesToLoad, initTask, taskRunning,
        taskUninterruptible])
  rw [Balanced, hnone]
  rfl

theorem Reachable.balanced (hK : Laws K queued) {boot : Boot T} (h : Reachable K boot s) :
    Balanced s := by
  induction h with
  | init => exact balanced_init boot
  | step hrun hop hstep ih =>
      rcases Reachable.inv hK hrun with ⟨wrr, hinv⟩
      exact ih.step hK hinv hop hstep

/-- **The load that is sampled is the number of the tasks that are queued or sleep
uninterruptibly**, in every reachable state. -/
theorem nr_active_counts (hK : Laws K queued) {boot : Boot T} (h : Reachable K boot s) :
    s.acct.nrUninterruptible = s.core.blocked.card ∧
      ∃ A : Finset T, (∀ p, p ∈ A ↔ (s.task p).onRq = true ∨ p ∈ s.core.blocked) ∧
        nrActive s = A.card := by
  have hbalanced := h.balanced hK
  rcases h.inv hK with ⟨wrr, hinv⟩
  rcases hinv.layout.nr with ⟨P, hP, hnr⟩
  have hqueued : ∀ p, p ∈ P ↔ (s.task p).onRq = true := fun p => by
    rw [hP, Core.place_ne_off_iff]
  have hdisjoint : Disjoint P s.core.blocked := by
    refine Finset.disjoint_left.mpr fun p hp hblocked => ?_
    have hoff := (Core.mem_blocked.mp hblocked).2.1
    rw [(hqueued p).mp hp] at hoff
    exact Bool.noConfusion hoff
  refine ⟨hbalanced, P ∪ s.core.blocked, fun p => ?_, ?_⟩
  · rw [Finset.mem_union, hqueued]
  · rw [nrActive, hnr, hbalanced, Finset.card_union_of_disjoint hdisjoint]
    push_cast
    rfl

/-- One task sleeps uninterruptibly, one interruptibly, and two are queued. -/
theorem nr_active_counts_four :
    ∃ s, runOps (fifoKernel smallConfig) Allowed (init (fifoKernel smallConfig) smallBoot)
        [.fork 2, .wakeUpNewTask 2, .schedule ⟨false, false, none⟩, .fork 3, .wakeUpNewTask 3,
          .fork 4, .wakeUpNewTask 4, .fork 5, .wakeUpNewTask 5,
          .setCurrentState taskUninterruptible, .schedule ⟨false, false, none⟩,
          .setCurrentState taskInterruptible, .schedule ⟨false, false, none⟩] = some s ∧
      s.acct.nrUninterruptible = s.core.blocked.card ∧
      ∃ A : Finset ℕ, (∀ p, p ∈ A ↔ (s.task p).onRq = true ∨ p ∈ s.core.blocked) ∧
        nrActive s = A.card := by
  refine Option.isSome_iff_exists.mp ?_ |>.imp fun s hs => ⟨hs, ?_⟩
  · decide +kernel
  · exact nr_active_counts (fifoKernel_laws smallConfig) (Run.runOps _ .init hs)

end

end Sched
