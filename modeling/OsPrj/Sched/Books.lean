import OsPrj.Sched.Charging
import OsPrj.Sched.Slices

/-!
# What is written in few places

The load counter `rq->nr_uninterruptible` and the time slices of the WRR class are written in few
places: the first where tasks are activated and deactivated, the slices by the tick and by
`sched_fork`.  `SameBooks s s'` says that a part of an operation leaves both alone; here it is shown
of all the other functions.
-/

set_option linter.unusedSectionVars false

namespace Sched

variable {T E : Type} [DecidableEq T]

/-- The load counter and the WRR time slices are the same. -/
structure SameBooks (s s' : Sys T E) : Prop where
  nrUninterruptible : s'.acct.nrUninterruptible = s.acct.nrUninterruptible
  slice : ∀ p, (s'.acct.wrr p).timeSlice = (s.acct.wrr p).timeSlice

section

variable {K : Kernel T E} {s s' s'' : Sys T E} {p : T}

lemma SameBooks.refl (s : Sys T E) : SameBooks s s := ⟨rfl, fun _ => rfl⟩

lemma SameBooks.trans (h : SameBooks s s') (h' : SameBooks s' s'') : SameBooks s s'' :=
  ⟨h'.nrUninterruptible.trans h.nrUninterruptible, fun p => (h'.slice p).trans (h.slice p)⟩

lemma SameBooks.ite {c : Prop} [Decidable c] {a b : Sys T E} (ha : SameBooks s a)
    (hb : SameBooks s b) : SameBooks s (if c then a else b) := by
  split_ifs
  · exact ha
  · exact hb

/-- Nothing is written but the tasks, the queues, the flags and the records. -/
lemma SameBooks.of_acct (h : s'.acct = s.acct) : SameBooks s s' :=
  ⟨by rw [h], fun p => by rw [h]⟩

/-! ## The small steps -/

lemma sameBooks_setTask (s : Sys T E) (p : T) (f : TaskStruct → TaskStruct) :
    SameBooks s (s.setTask p f) := .of_acct rfl

lemma sameBooks_setSe (s : Sys T E) (p : T) (f : SchedEntity → SchedEntity) :
    SameBooks s (s.setSe p f) := ⟨rfl, fun _ => rfl⟩

lemma sameBooks_setRt (s : Sys T E) (p : T) (f : SchedRtEntity → SchedRtEntity) :
    SameBooks s (s.setRt p f) := ⟨rfl, fun _ => rfl⟩

lemma sameBooks_setWrr (s : Sys T E) (p : T) {f : SchedWrrEntity → SchedWrrEntity}
    (hf : ∀ e, (f e).timeSlice = e.timeSlice) : SameBooks s (s.setWrr p f) :=
  ⟨rfl, (sameSlices_setWrr s p hf).wrr⟩

lemma sameBooks_reschedTask (s : Sys T E) (p : T) : SameBooks s (s.reschedTask p) := .of_acct rfl

lemma sameBooks_setQueues (s : Sys T E) (q : Queues T) : SameBooks s (s.setQueues q) := .of_acct rfl

lemma sameBooks_warnOn (s : Sys T E) (cond : Bool) (w : Warning) :
    SameBooks s (s.warnOn cond w) := .of_acct (acct_warnOn s cond w)

lemma sameBooks_applyHook (s : Sys T E) (r : HookResult T E) : SameBooks s (s.applyHook r) :=
  .ite ⟨rfl, fun _ => rfl⟩ ⟨rfl, fun _ => rfl⟩

lemma sameBooks_updateRqClock (K : Kernel T E) (s : Sys T E) : SameBooks s (updateRqClock K s) :=
  .ite (.refl s) ⟨rfl, fun _ => rfl⟩

/-! ## The RT and the WRR class -/

lemma sameBooks_updateCurrWrr (s : Sys T E) : SameBooks s (updateCurrWrr s) :=
  .ite (sameBooks_setSe s _ _) (.refl s)

lemma sameBooks_setSchedExp (s : Sys T E) (p : T) : SameBooks s (setSchedExp s p) :=
  ⟨rfl, fun _ => rfl⟩

lemma sameBooks_watchdogWrr (cfg : Config) (s : Sys T E) (p : T) :
    SameBooks s (watchdogWrr cfg s p) := by
  refine .ite (.refl s)
    ((sameBooks_setWrr s p ?_).trans (.ite (sameBooks_setSchedExp _ p) (.refl _)))
  exact fun _ => rfl

lemma sameBooks_enqueueTaskWrr (s : Sys T E) (p : T) (flags : EnqueueFlags) :
    SameBooks s (enqueueTaskWrr s p flags) := by
  have hreset : SameBooks s (resetTimeoutWrr s p flags) :=
    .ite (sameBooks_setWrr s p fun _ => rfl) (.refl s)
  exact (hreset.trans (.of_acct (acct_dequeueWrrStack _ p))).trans (.of_acct rfl)

lemma sameBooks_dequeueTaskWrr (s : Sys T E) (p : T) : SameBooks s (dequeueTaskWrr s p) :=
  ((sameBooks_updateCurrWrr s).trans (.of_acct (acct_dequeueWrrStack _ p))).trans (.of_acct rfl)

lemma sameBooks_schedRtRuntimeExceeded (cfg : Config) (s : Sys T E) :
    SameBooks s (schedRtRuntimeExceeded cfg s).2 := by
  rw [schedRtRuntimeExceeded]
  split_ifs
  · exact .refl s
  · exact .refl s
  · exact .refl s
  · exact ⟨rfl, fun _ => rfl⟩
  · exact ⟨rfl, fun _ => rfl⟩
  · exact .refl s

lemma sameBooks_chargeRtBandwidth (cfg : Config) (s : Sys T E) (delta : BitVec 64) :
    SameBooks s (chargeRtBandwidth cfg s delta) := by
  have hcharge : SameBooks s (s.setAcct { s.acct with rtTime := s.acct.rtTime + delta }) :=
    ⟨rfl, fun _ => rfl⟩
  have hexceeded := hcharge.trans (sameBooks_schedRtRuntimeExceeded cfg _)
  rw [chargeRtBandwidth]
  refine .ite (.refl s) (.ite (.refl s) (hexceeded.trans (.ite ?_ (.refl _))))
  exact sameBooks_reschedTask _ _

lemma sameBooks_updateCurrRt (cfg : Config) (s : Sys T E) : SameBooks s (updateCurrRt cfg s) := by
  have hgroup : ∀ (s : Sys T E) q delta, SameBooks s (accountGroupExecRuntime s q delta) :=
    fun _ _ _ => ⟨rfl, fun _ => rfl⟩
  rw [updateCurrRt]
  split_ifs
  · exact (sameBooks_setSe _ _ _).trans
      ((hgroup _ _ _).trans (sameBooks_chargeRtBandwidth cfg _ _))
  · exact .refl s

lemma sameBooks_watchdogRt (cfg : Config) (s : Sys T E) (p : T) :
    SameBooks s (watchdogRt cfg s p) :=
  .ite (.refl s) ((sameBooks_setRt s p _).trans (.ite (sameBooks_setSchedExp _ p) (.refl _)))

lemma sameBooks_enqueueTaskRt (s : Sys T E) (p : T) (flags : EnqueueFlags) :
    SameBooks s (enqueueTaskRt s p flags) := by
  have hreset : SameBooks s (resetTimeoutRt s p flags) :=
    .ite (sameBooks_setRt s p _) (.refl s)
  have hinc : ∀ s : Sys T E, SameBooks s (incRtTasks s p) := fun s =>
    (sameBooks_warnOn s _ _).trans (.of_acct rfl)
  refine (hreset.trans (.of_acct (acct_dequeueRtStack _ p))).trans ?_
  exact (sameBooks_setQueues _ _).trans ((hinc _).trans (.of_acct rfl))

lemma sameBooks_dequeueTaskRt (cfg : Config) (s : Sys T E) (p : T) :
    SameBooks s (dequeueTaskRt cfg s p) :=
  ((sameBooks_updateCurrRt cfg s).trans (.of_acct (acct_dequeueRtStack _ p))).trans (.of_acct rfl)

lemma sameBooks_taskTickRt (cfg : Config) (s : Sys T E) (p : T) :
    SameBooks s (taskTickRt cfg s p) := by
  have hexpire : ∀ s : Sys T E, SameBooks s (expireRt cfg s p) := fun s => by
    refine .ite ?_ (sameBooks_setRt s p _)
    exact (sameBooks_setRt s p _).trans
      ((SameBooks.of_acct (acct_requeueTaskRt _ p false)).trans (sameBooks_reschedTask _ p))
  have hslice : ∀ s : Sys T E, SameBooks s (sliceTickRt cfg s p) := fun s =>
    .ite (.refl s) (.ite (sameBooks_setRt s p _) (hexpire s))
  exact (sameBooks_updateCurrRt cfg s).trans ((sameBooks_watchdogRt cfg _ p).trans (hslice _))

lemma sameBooks_doSchedRtPeriodTimer (cfg : Config) (s : Sys T E) (overrun : BitVec 64) :
    SameBooks s (doSchedRtPeriodTimer cfg s overrun) := by
  have hresched : ∀ s : Sys T E, SameBooks s (schedRtRqEnqueue s) := fun s =>
    .ite (sameBooks_reschedTask s _) (.refl s)
  have hwrite : ∀ (s : Sys T E) time, SameBooks s (s.setAcct { s.acct with rtTime := time }) :=
    fun _ _ => ⟨rfl, fun _ => rfl⟩
  have hunthrottle : ∀ s : Sys T E, SameBooks s (rtUnthrottle s) := by
    intro s
    rw [rtUnthrottle]
    refine SameBooks.trans ?_ (hresched _)
    exact ⟨rfl, fun _ => rfl⟩
  refine .ite (.ite ?_ (hwrite s _)) (.ite (.ite (hresched s) (.refl s)) (.refl s))
  exact (hwrite s _).trans (hunthrottle _)

/-! ## core.c -/

lemma sameBooks_enqueueTask (s : Sys T E) (p : T) (flags : EnqueueFlags) :
    SameBooks s (enqueueTask K s p flags) := by
  refine (sameBooks_updateRqClock K s).trans ?_
  rw [enqueueTask]
  split
  · exact sameBooks_enqueueTaskRt _ p flags
  · exact sameBooks_enqueueTaskWrr _ p flags
  · exact (sameBooks_setQueues _ _).trans (sameBooks_applyHook _ _)

lemma sameBooks_dequeueTask (s : Sys T E) (p : T) (sleep : Bool) :
    SameBooks s (dequeueTask K s p sleep) := by
  refine (sameBooks_updateRqClock K s).trans ?_
  rw [dequeueTask]
  split
  · exact sameBooks_dequeueTaskRt _ _ p
  · exact sameBooks_dequeueTaskWrr _ p
  · exact (sameBooks_setQueues _ _).trans (sameBooks_applyHook _ _)

lemma sameBooks_yieldTask (s : Sys T E) : SameBooks s (yieldTask K s) := by
  rw [yieldTask]
  split
  · exact .of_acct (acct_requeueTaskRt s _ _)
  · exact .of_acct (acct_requeueTaskWrr s _ _)
  · exact sameBooks_applyHook s _

lemma sameBooks_classPutPrevTask (s : Sys T E) (p : T) :
    SameBooks s (classPutPrevTask K s p) := by
  rw [classPutPrevTask]
  split
  · exact sameBooks_updateCurrRt _ s
  · exact sameBooks_updateCurrWrr s
  · exact sameBooks_applyHook s _

lemma sameBooks_putPrevTask (s : Sys T E) (p : T) : SameBooks s (putPrevTask K s p) :=
  (SameBooks.ite (sameBooks_updateRqClock K s) (.refl s)).trans (sameBooks_classPutPrevTask _ p)

lemma sameBooks_classSetCurrTask (s : Sys T E) : SameBooks s (classSetCurrTask K s) := by
  rw [classSetCurrTask]
  split
  · exact sameBooks_setSe s _ _
  · exact sameBooks_setSe s _ _
  · exact sameBooks_applyHook s _

lemma sameBooks_checkPreemptCurr (s : Sys T E) (p : T) : SameBooks s (checkPreemptCurr K s p) := by
  have hclass : SameBooks s (classCheckPreemptCurr K s p) := by
    rw [classCheckPreemptCurr]
    split
    · exact .ite (sameBooks_reschedTask s _) (.refl s)
    · exact .refl s
    · exact sameBooks_applyHook s _
  have hpreempt : SameBooks s (preemptByClass K s p) :=
    .ite hclass (.ite (sameBooks_reschedTask s _) (.refl s))
  exact hpreempt.trans (.ite ⟨rfl, fun _ => rfl⟩ (.refl _))

lemma sameBooks_checkClassChanged (s : Sys T E) (p : T) (prevClass : SchedClass) (oldprio : ℤ) :
    SameBooks s (checkClassChanged K s p prevClass oldprio) := by
  have hfrom : SameBooks s (switchedFrom K prevClass s p) := by
    cases prevClass with
    | rt | wrr => exact .refl s
    | stop | fair | idle => exact sameBooks_applyHook s _
  have hto : ∀ s : Sys T E, SameBooks s (switchedTo K s p) := by
    intro s
    rw [switchedTo]
    split
    · exact .ite (.ite (sameBooks_reschedTask s _) (.refl s)) (.refl s)
    · exact .refl s
    · exact sameBooks_applyHook s _
  have hprio : SameBooks s (prioChanged K s p oldprio) := by
    rw [prioChanged]
    split
    · exact .ite (.refl s) (.ite (.ite (sameBooks_reschedTask s _) (.refl s))
        (.ite (sameBooks_reschedTask s _) (.refl s)))
    · exact .refl s
    · exact sameBooks_applyHook s _
  exact .ite (hfrom.trans (hto _)) (.ite hprio (.refl s))

/-- A pick. -/
lemma sameBooks_offers {c : SchedClass} (hoffer : Offers K c s p s') : SameBooks s s' := by
  cases c with
  | rt =>
      obtain rfl := pickNextTaskRt_stamp hoffer
      exact sameBooks_setSe s p _
  | wrr =>
      obtain rfl := pickNextTaskWrr_stamp hoffer
      exact ⟨rfl, fun _ => rfl⟩
  | stop | fair | idle =>
      obtain ⟨-, rfl⟩ : _ ∧ s' = _ := by simpa [Offers, classPickNextTask, eq_comm] using hoffer
      exact sameBooks_applyHook s _

/-- Whatever is written to a task while it is off its queue. -/
lemma sameBooks_changeTask (s : Sys T E) (p : T) (f : TaskStruct → TaskStruct) (head : Bool) :
    SameBooks s (changeTask K s p f head) := by
  have hout : SameBooks s (if (s.task p).onRq then dequeueTask K s p false else s) :=
    .ite (sameBooks_dequeueTask s p false) (.refl s)
  have hput := hout.trans
    (SameBooks.ite (c := s.core.curr = p) (sameBooks_classPutPrevTask (K := K) _ p) (.refl _))
  have hset := hput.trans (sameBooks_setTask _ p f)
  have hcurr := hset.trans
    (SameBooks.ite (c := s.core.curr = p) (sameBooks_classSetCurrTask (K := K) _) (.refl _))
  exact hcurr.trans (.ite (sameBooks_enqueueTask _ p _) (.refl _))

lemma sameBooks_setUserNice (s : Sys T E) (p : T) (nice : ℤ) :
    SameBooks s (setUserNice K s p nice) := by
  have hout : SameBooks s (if (s.task p).onRq then dequeueTask K s p false else s) :=
    .ite (sameBooks_dequeueTask s p false) (.refl s)
  have hset := hout.trans (sameBooks_setTask _ p fun t => renicedTask t nice)
  have hin := hset.trans (sameBooks_enqueueTask (K := K) _ p { wakeup := false, head := false })
  refine .ite (.refl s) (.ite (sameBooks_setTask s p _) ?_)
  exact .ite (hin.trans (.ite (sameBooks_reschedTask _ _) (.refl _))) hset

lemma sameBooks_schedMoveTask (s : Sys T E) (p : T) (groupPath : String) :
    SameBooks s (schedMoveTask K s p groupPath) := by
  have hout : SameBooks s (if (s.task p).onRq then dequeueTask K s p false else s) :=
    .ite (sameBooks_dequeueTask s p false) (.refl s)
  have hput := hout.trans
    (SameBooks.ite (c := s.core.curr = p) (sameBooks_classPutPrevTask (K := K) _ p) (.refl _))
  have hset := hput.trans (sameBooks_setTask _ p fun t => { t with schedTaskGroup := groupPath })
  have hhook : ∀ (s : Sys T E) onRq, SameBooks s (if (s.task p).schedClass = .fair then
      s.applyHook (K.taskMoveGroupOther .fair s p onRq) else s) := fun s _ =>
    .ite (sameBooks_applyHook s _) (.refl s)
  have hcurr := (hset.trans (hhook _ (s.task p).onRq)).trans
    (SameBooks.ite (c := s.core.curr = p) (sameBooks_classSetCurrTask (K := K) _) (.refl _))
  exact hcurr.trans (.ite (sameBooks_enqueueTask _ p _) (.refl _))

lemma core_schedMoveTask (s : Sys T E) (p : T) (groupPath : String) :
    (schedMoveTask K s p groupPath).core
      = s.core.setTask p fun t => { t with schedTaskGroup := groupPath } := by
  have hout : Keeps s (if (s.task p).onRq then dequeueTask K s p false else s) :=
    .ite (keeps_dequeueTask K s p false) (.refl s)
  have hput := fun s : Sys T E => (quiet_classPutPrevTask (quietHooks_unit K) s p).toKeeps
  have hset := fun s : Sys T E => (quiet_classSetCurrTask (quietHooks_unit K) s).toKeeps
  refine core_change (hout.trans (Keeps.ite (c := s.core.curr = p) (hput _) (.refl _))) ?_ _
  exact .trans (.ite (keeps_applyHook _ _) (.refl _)) (.ite (hset _) (.refl _))

/-- The tick writes slices, but not the counter. -/
lemma nrUninterruptible_classTaskTick (s : Sys T E) :
    (classTaskTick K s).acct.nrUninterruptible = s.acct.nrUninterruptible := by
  have hexpire : ∀ (s : Sys T E) p, (expireWrr K.toConfig s p).acct.nrUninterruptible
      = s.acct.nrUninterruptible := by
    intro s p
    rw [expireWrr]
    split_ifs
    · rw [acct_reschedTask, acct_requeueTaskWrr]
      rfl
    · rfl
  have hslice : ∀ (s : Sys T E) p, (sliceTickWrr K.toConfig s p).acct.nrUninterruptible
      = s.acct.nrUninterruptible := by
    intro s p
    rw [sliceTickWrr]
    split_ifs
    · rfl
    · rfl
    · exact hexpire s p
  rw [classTaskTick]
  split
  · exact (sameBooks_taskTickRt _ s _).nrUninterruptible
  · rw [taskTickWrr, hslice]
    exact ((sameBooks_updateCurrWrr s).trans
      (sameBooks_watchdogWrr K.toConfig _ s.core.curr)).nrUninterruptible
  · exact (sameBooks_applyHook s _).nrUninterruptible

end

end Sched
