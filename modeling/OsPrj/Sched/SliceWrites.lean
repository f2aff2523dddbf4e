import OsPrj.Sched.Books

/-!
# Time slices over whole runs

Nothing but the tick and `sched_fork` writes the slices of the WRR class (`step_slice`), and no
slice is longer than a whole one (`Reachable.slice_le`).

* `ticksLeft` — the ticks until a slice is used up; one that has not been set yet counts as whole.
* `decTimeSlice_lt` — **a tick uses up one of them**.
-/

namespace Sched

variable {T E : Type} [DecidableEq T]

/-! ## What a slice is worth -/

/-- The longest whole slice.  A group with a slice of no ticks would wait for the counter to come
round. -/
def wholeSlice (cfg : Config) : ℕ :=
  if wrrTimesliceBack cfg = 0 then 2 ^ 32 else wrrTimesliceFore cfg

/-- The ticks until a slice is used up. -/
def ticksLeft (cfg : Config) (slice : ℕ) : ℕ := if slice = 0 then wholeSlice cfg else slice

section

variable {cfg : Config} {n : ℕ}

lemma wrrTimesliceFore_lt (cfg : Config) : wrrTimesliceFore cfg < 2 ^ 32 := by
  have hfits := cfg.hz_fits
  rw [wrrTimesliceFore]
  omega

lemma wrrTimesliceBack_le (cfg : Config) : wrrTimesliceBack cfg ≤ wrrTimesliceFore cfg := by
  rw [wrrTimesliceBack, wrrTimesliceFore]
  omega

lemma wholeSlice_pos (cfg : Config) : 0 < wholeSlice cfg := by
  have hle := wrrTimesliceBack_le cfg
  rw [wholeSlice]
  split_ifs with hzero
  · exact Nat.two_pow_pos 32
  · omega

lemma ticksLeft_pos (cfg : Config) (n : ℕ) : 0 < ticksLeft cfg n := by
  rw [ticksLeft]
  split_ifs with hzero
  · exact wholeSlice_pos cfg
  · omega

lemma ticksLeft_le (hn : n ≤ wholeSlice cfg) : ticksLeft cfg n ≤ wholeSlice cfg := by
  rw [ticksLeft]
  split_ifs
  · exact le_rfl
  · exact hn

lemma wrrTimeslice_le (cfg : Config) (groupPath : String) :
    wrrTimeslice cfg groupPath ≤ wholeSlice cfg := by
  have hle := wrrTimesliceBack_le cfg
  have hlt := wrrTimesliceFore_lt cfg
  rw [wrrTimeslice, wholeSlice]
  split_ifs
  · omega
  · exact le_rfl
  · omega
  · exact hle

/-- **A tick uses up one of the ticks that are left.** -/
lemma decTimeSlice_lt (cfg : Config) (n : ℕ) (hn : n ≤ wholeSlice cfg) (groupPath : String) :
    decTimeSlice (if n = 0 then wrrTimeslice cfg groupPath else n) + 1 ≤ ticksLeft cfg n := by
  have hlt := wrrTimesliceFore_lt cfg
  have hback := wrrTimesliceBack_le cfg
  rw [ticksLeft, decTimeSlice, wrrTimeslice]
  rw [wholeSlice] at hn ⊢
  split_ifs at hn ⊢ <;> omega

end

/-! ## Who writes slices -/

/-- A task of the WRR class has its policy. -/
def TaskStruct.WrrPolicy (t : TaskStruct) : Prop := t.schedClass = .wrr → t.policy = schedWrr

lemma resetTask_policy_of_not_rt {t : TaskStruct} (h : rtPolicy t.policy = false) :
    (resetTask t).policy = t.policy := by
  rw [resetTask, h]
  simp only [Bool.false_eq_true, if_false]
  split_ifs <;> simp

/-- A child in the WRR class has the policy of its parent. -/
lemma TaskStruct.WrrPolicy.forkedTask {t : TaskStruct} (h : t.WrrPolicy) :
    (Sched.forkedTask t).WrrPolicy := by
  intro hclass
  rw [forkedTask_eq] at hclass ⊢
  have hcopied : (copiedTask t).schedClass = .wrr := by
    change (if !rtPrio (copiedTask t).prio then SchedClass.fair else _) = _ at hclass
    split_ifs at hclass
    exact hclass
  rw [copiedTask, resetTask_schedClass] at hcopied
  have hpolicy : rtPolicy t.policy = false := by
    rw [h hcopied]
    rfl
  change (copiedTask t).policy = schedWrr
  rw [copiedTask]
  refine (resetTask_policy_of_not_rt ?_).trans (h hcopied)
  exact hpolicy

/-- The slice that is left to a task. -/
abbrev slice (s : Sys T E) (p : T) : ℕ := (s.acct.wrr p).timeSlice

section

variable {K : Kernel T E} {queued : E → SchedClass → Finset T} {s s' : Sys T E} {wrr : List T}
  {p : T}

omit [DecidableEq T] in
lemma slice_of_sameBooks (h : SameBooks s s') : slice s' = slice s := funext h.slice

omit [DecidableEq T] in
lemma slice_addUninterruptible (s : Sys T E) (p : T) (n : ℤ) :
    slice (addUninterruptible s p n) = slice s := by
  rw [addUninterruptible]
  split_ifs
  · rfl
  · rfl

lemma slice_activateTask (s : Sys T E) (p : T) (flags : EnqueueFlags) :
    slice (activateTask K s p flags) = slice s :=
  (slice_of_sameBooks (sameBooks_enqueueTask _ p flags)).trans (slice_addUninterruptible s p _)

lemma slice_deactivateTask (s : Sys T E) (p : T) (sleep : Bool) :
    slice (deactivateTask K s p sleep) = slice s :=
  (slice_of_sameBooks (sameBooks_dequeueTask _ p sleep)).trans (slice_addUninterruptible s p _)

lemma slice_ttwuDoWakeup (s : Sys T E) (p : T) : slice (ttwuDoWakeup K s p) = slice s :=
  slice_of_sameBooks ((sameBooks_checkPreemptCurr s p).trans (sameBooks_setTask _ p _))

lemma slice_ttwuActivate (s : Sys T E) (p : T) :
    slice (ttwuDoWakeup K (ttwuActivate K s p) p) = slice s :=
  (slice_ttwuDoWakeup _ p).trans (slice_activateTask s p _)

lemma slice_tryToWakeUp (s : Sys T E) (p : T) (state : ℕ) :
    slice (tryToWakeUp K s p state) = slice s := by
  rw [tryToWakeUp]
  split_ifs
  · rfl
  · exact slice_ttwuDoWakeup s p
  · exact slice_ttwuActivate s p

lemma slice_tryToWakeUpLocal (s : Sys T E) (p : T) :
    slice (tryToWakeUpLocal K s p) = slice s := by
  rw [tryToWakeUpLocal]
  split_ifs
  · exact slice_of_sameBooks (sameBooks_warnOn s _ _)
  · rfl
  · exact slice_ttwuDoWakeup s p
  · exact slice_ttwuActivate s p

lemma slice_scheduleOut (s : Sys T E) (a : ScheduleArgs T) :
    slice (scheduleOut K s a) = slice s := by
  have hout : slice ((deactivateTask K s s.core.curr true).setTask s.core.curr fun t =>
      { t with onRq := false }) = slice s := slice_deactivateTask s s.core.curr true
  have hite : ∀ {c : Prop} [Decidable c] {a b : Sys T E}, slice a = slice s → slice b = slice s →
      slice (if c then a else b) = slice s := by
    intro c _ a b ha hb
    split_ifs
    · exact ha
    · exact hb
  rw [scheduleOut]
  refine hite (hite rfl (hite ?_ hout)) rfl
  cases a.toWakeup with
  | none => exact hout
  | some p => exact (slice_tryToWakeUpLocal _ p).trans hout

lemma slice_schedule (hK : Laws K queued) (h : Inv K queued s wrr) {a : ScheduleArgs T}
    (ha : ∀ p ∈ a.toWakeup, p ∈ s.core.tasklist) (hstep : schedule K s a = .ok s') :
    slice s' = slice s := by
  rcases h.schedule hK a ha with
    ⟨s₁, wrr', -, c, -, next, s₂, -, rfl, -, -, hoffer, hschedule, -⟩
  rw [hschedule] at hstep
  obtain rfl := Except.ok.inj hstep
  have hput := slice_of_sameBooks (sameBooks_putPrevTask (K := K) (scheduleOut K s a) s.core.curr)
  have hpick := slice_of_sameBooks (sameBooks_offers hoffer)
  exact hpick.trans (hput.trans (slice_scheduleOut s a))

/-- Only the tick and `sched_fork` write slices; a child gets the slice of its parent. -/
theorem step_slice (hK : Laws K queued) (h : Inv K queued s wrr) {op : Op T} (hop : Allowed s op)
    (hstep : step K s op = .ok s') (htick : op ≠ .schedulerTick) (q : T) :
    slice s' q = slice s q ∨ op = .fork q ∧ slice s' q = slice s s.core.curr := by
  cases op with
  | fork p =>
      obtain rfl := Except.ok.inj hstep
      have hfork : slice (schedFork K s p) q
          = Function.update (slice s) p (slice s s.core.curr) q := by
        have hraw : slice (forkedSys s p) q
            = Function.update (slice s) p (slice s s.core.curr) q := by
          change (Function.update s.acct.wrr p (s.acct.wrr s.core.curr) q).timeSlice = _
          rw [Function.update_apply, Function.update_apply]
          split_ifs
          · rfl
          · rfl
        rw [schedFork_eq]
        split_ifs
        · rw [slice_of_sameBooks (sameBooks_applyHook _ _), hraw]
        · exact hraw
      rcases eq_or_ne q p with rfl | hq
      · rw [Function.update_self] at hfork
        exact .inr ⟨rfl, hfork⟩
      · rw [Function.update_of_ne hq] at hfork
        exact .inl hfork
  | schedulerTick => exact absurd rfl htick
  | schedule a => exact .inl (congrFun (slice_schedule hK h hop hstep) q)
  | schedYield a =>
      rcases h.toConsistent.yieldTask hK with ⟨wrr₁, hyield⟩
      have hsched := slice_schedule hK (hyield.inv h)
        (fun p hp => hyield.tasklist p (hop p hp)) hstep
      rw [hsched, slice_of_sameBooks (sameBooks_yieldTask s)]
      exact .inl rfl
  | pickNextTask =>
      rcases h.layout.pickNextTask hK h.wrrThrottled with ⟨-, c, -, p, s₁, -, -, hoffer, hpick⟩
      rw [step, hpick] at hstep
      obtain rfl := Except.ok.inj hstep
      exact .inl ((sameBooks_offers hoffer).slice q)
  | wakeUpNewTask p =>
      obtain rfl := Except.ok.inj hstep
      have hcheck := slice_of_sameBooks (sameBooks_checkPreemptCurr (K := K)
        ((activateTask K s p { wakeup := false, head := false }).setTask p fun t =>
          { t with onRq := true }) p)
      exact .inl (congrFun (hcheck.trans (slice_activateTask s p _)) q)
  | tryToWakeUp p state =>
      obtain rfl := Except.ok.inj hstep
      exact .inl (congrFun (slice_tryToWakeUp s p state) q)
  | setscheduler p policy prio resetOnFork =>
      obtain rfl := Except.ok.inj hstep
      rw [setschedulerLocked_eq]
      split_ifs
      · exact .inl rfl
      · exact .inl rfl
      · exact .inl (((sameBooks_changeTask s p _ false).trans
          (sameBooks_checkClassChanged _ p _ _)).slice q)
  | setUserNice p nice =>
      obtain rfl := Except.ok.inj hstep
      exact .inl ((sameBooks_setUserNice s p nice).slice q)
  | rtMutexSetprio p prio =>
      rw [step, rtMutexSetprio_eq s p hop.2] at hstep
      obtain rfl := Except.ok.inj hstep
      split_ifs
      · exact .inl ((sameBooks_warnOn s _ _).slice q)
      · exact .inl (((sameBooks_changeTask s p _ _).trans
          (sameBooks_checkClassChanged _ p _ _)).slice q)
  | schedMoveTask p groupPath =>
      obtain rfl := Except.ok.inj hstep
      exact .inl ((sameBooks_schedMoveTask s p groupPath).slice q)
  | setCurrentState state =>
      obtain rfl := Except.ok.inj hstep
      exact .inl rfl
  | setTopPiWaiter p prio =>
      obtain rfl := Except.ok.inj hstep
      exact .inl rfl
  | writeField p field =>
      obtain rfl := Except.ok.inj hstep
      exact .inl rfl
  | schedRtPeriodTimer overrun =>
      obtain rfl := Except.ok.inj hstep
      exact .inl ((sameBooks_doSchedRtPeriodTimer _ s overrun).slice q)

/-- In the other classes the tick leaves the slices alone. -/
lemma slice_schedulerTick_of_ne (hclass : currClass s ≠ .wrr) :
    slice (schedulerTick K s) = slice s := by
  have hclock := slice_of_sameBooks (sameBooks_updateRqClock K s)
  have hcore : (updateRqClock K s).core = s.core := (keeps_updateRqClock K s).core
  rw [schedulerTick, classTaskTick]
  split
  · exact (slice_of_sameBooks (sameBooks_taskTickRt _ _ _)).trans hclock
  · next hwrr =>
      rw [Sys.task, hcore] at hwrr
      exact absurd hwrr hclass
  · exact (slice_of_sameBooks (sameBooks_applyHook _ _)).trans hclock

/-! ## How long slices are -/

lemma slice_le_setWrr {cfg : Config} (h : ∀ q, slice s q ≤ wholeSlice cfg) {n : ℕ}
    (hn : n ≤ wholeSlice cfg) (q : T) :
    slice (s.setWrr p fun e => { e with timeSlice := n }) q ≤ wholeSlice cfg := by
  change (Function.update s.acct.wrr p _ q).timeSlice ≤ _
  rw [Function.update_apply]
  split_ifs
  · exact hn
  · exact h q

lemma slice_le_taskTickWrr {cfg : Config} (h : ∀ q, slice s q ≤ wholeSlice cfg) (q : T) :
    slice (taskTickWrr cfg s p) q ≤ wholeSlice cfg := by
  have hbefore : ∀ q, slice (watchdogWrr cfg (updateCurrWrr s) p) q ≤ wholeSlice cfg := by
    intro q
    rw [slice_of_sameBooks (sameBooks_watchdogWrr cfg _ p),
      slice_of_sameBooks (sameBooks_updateCurrWrr s)]
    exact h q
  rw [taskTickWrr]
  generalize watchdogWrr cfg (updateCurrWrr s) p = s₁ at hbefore ⊢
  have hnext : nextTimeSliceWrr cfg s₁ p ≤ wholeSlice cfg := by
    have hlt := decTimeSlice_lt cfg (slice s₁ p) (hbefore p) (s₁.task p).schedTaskGroup
    rw [nextTimeSliceWrr]
    exact (Nat.le_of_succ_le hlt).trans (ticksLeft_le (hbefore p))
  have hfill := slice_le_setWrr (p := p) hbefore
    (wrrTimeslice_le cfg (s₁.task p).schedTaskGroup) q
  rw [sliceTickWrr, expireWrr]
  split_ifs
  · exact hbefore q
  · exact slice_le_setWrr hbefore hnext q
  · rw [slice, acct_reschedTask, acct_requeueTaskWrr]
    exact hfill
  · exact hfill

lemma slice_le_schedulerTick (h : ∀ q, slice s q ≤ wholeSlice K.toConfig) (q : T) :
    slice (schedulerTick K s) q ≤ wholeSlice K.toConfig := by
  have hclock : ∀ q, slice (updateRqClock K s) q ≤ wholeSlice K.toConfig := by
    rw [slice_of_sameBooks (sameBooks_updateRqClock K s)]
    exact h
  rw [schedulerTick, classTaskTick]
  split
  · rw [slice_of_sameBooks (sameBooks_taskTickRt _ _ _)]
    exact hclock q
  · exact slice_le_taskTickWrr hclock q
  · rw [slice_of_sameBooks (sameBooks_applyHook _ _)]
    exact hclock q

/-- **No slice is longer than a whole one.** -/
theorem Reachable.slice_le (hK : Laws K queued) {boot : Boot T} (h : Reachable K boot s) (q : T) :
    slice s q ≤ wholeSlice K.toConfig := by
  induction h generalizing q with
  | init => exact Nat.zero_le _
  | @step s s' op hrun hop hstep ih =>
      rcases Reachable.inv hK hrun with ⟨wrr, hinv⟩
      by_cases htick : op = .schedulerTick
      · subst htick
        obtain rfl := Except.ok.inj hstep
        exact slice_le_schedulerTick ih q
      · rcases step_slice hK hinv hop hstep htick q with hsame | ⟨-, hchild⟩
        · rw [hsame]
          exact ih q
        · rw [hchild]
          exact ih _

/-- **A task of the WRR class has its policy.** -/
theorem Reachable.policy_of_wrr (hK : Laws K queued) {boot : Boot T} (h : Reachable K boot s)
    (hclass : (s.task p).schedClass = .wrr) : (s.task p).policy = schedWrr := by
  have hsame : ∀ {t t' : TaskStruct}, t'.params = t.params → t.WrrPolicy → t'.WrrPolicy := by
    intro t t' hparams ht hclass'
    have hpolicy : t'.params.policy = t.params.policy := by rw [hparams]
    have hclasses : t'.params.schedClass = t.params.schedClass := by rw [hparams]
    exact hpolicy.trans (ht (hclasses.symm.trans hclass'))
  refine Run.forall_task (P := TaskStruct.WrrPolicy) hK
    (fun _ _ => id) ?_ ?_ h p hclass
  · intro p hclass
    rcases init_task (K := K) boot p with ⟨htask, -⟩ | htask | htask
    · rw [htask] at hclass
      exact SchedClass.noConfusion hclass
    · rw [htask] at hclass
      exact SchedClass.noConfusion hclass
    · rw [htask] at hclass
      exact SchedClass.noConfusion hclass
  · intro s op c _ hwrites _ ih
    cases hwrites with
    | same hsameQueued _ => exact fun p => hsame (hsameQueued.task p) (ih p)
    | moves hparams _ => exact fun p => hsame (hparams.task p) (ih p)
    | @fork p =>
        intro q
        rcases eq_or_ne q p with rfl | hq
        · rw [Core.fork_self]
          exact (ih s.core.curr).forkedTask
        · rw [Core.fork_of_ne _ hq]
          exact ih q
    | setscheduler _ _ =>
        refine Core.forall_setTask (P := TaskStruct.WrrPolicy) ih fun hclass => ?_
        rw [setscheduler_schedClass] at hclass
        rw [setscheduler_policy]
        split_ifs at hclass with hpolicy
        exact hpolicy
    | setUserNice _ _ =>
        refine Core.forall_setTask (P := TaskStruct.WrrPolicy) ih fun hclass => ?_
        rw [renicedTask_schedClass] at hclass
        rw [renicedTask_policy]
        exact ih _ hclass
    | setTopPiWaiter => exact Core.forall_setTask (P := TaskStruct.WrrPolicy) ih (ih _)
    | rtMutexSetprio _ =>
        exact Core.forall_setTask (P := TaskStruct.WrrPolicy) ih fun hclass =>
          absurd hclass (boostedTask_schedClass _ _).2
    | schedulerTick _ => exact Core.forall_setTask (P := TaskStruct.WrrPolicy) ih (ih _)

end

end Sched
