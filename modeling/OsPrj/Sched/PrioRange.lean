import OsPrj.Sched.Params
import OsPrj.Sched.Preemption
import OsPrj.Sched.Slices

/-!
# The range of priorities

`sched.h` documents that priorities go from `0` to `MAX_PRIO - 1`, and `core.c` sets `p->prio` to
`p->normal_prio` unless priority inheritance lends the task another one.  The WRR tick also writes
`p->prio`, up to the `MAX_PRIO` of its own.

* `TaskStruct.PrioOk` — the priority of a task is in the range, and the normal one without waiters.
* `core_schedulerTick` — when a tick raises a priority.
* `prioOk_step_iff` — **the exact condition under which an operation keeps the priorities**.
* `prio_in_range` — the priorities over whole runs.
-/

namespace Sched

variable {T E : Type} [DecidableEq T]

/-! ## Normal priorities -/

/-- What `normal_prio` returns: below `MAX_PRIO`, and a real-time priority only for a real-time
policy. -/
structure TaskStruct.NormalInRange (t : TaskStruct) : Prop where
  lt : t.normalPrio < maxPrio
  le : rtPolicy t.policy = false → maxRtPrio ≤ t.normalPrio

lemma TaskStruct.NormalInRange.congr {t t' : TaskStruct} (h : t.NormalInRange)
    (hpolicy : t'.policy = t.policy) (hnormal : t'.normalPrio = t.normalPrio) :
    t'.NormalInRange := by
  refine ⟨?_, ?_⟩
  · rw [hnormal]
    exact h.lt
  · rw [hpolicy, hnormal]
    exact h.le

lemma normalInRange_setscheduler {t : TaskStruct} (h : t.InRange) {policy prio : ℤ}
    (hprio : 0 ≤ prio) : (setscheduler t policy prio).NormalInRange := by
  have hstatic := h.staticPrio
  refine ⟨?_, ?_⟩
  · rw [setscheduler_normalPrio, normalPrio]
    split_ifs
    · show (100 : ℤ) - 1 - prio < 100 + 40
      omega
    · exact hstatic.2
  · rw [setscheduler_policy, setscheduler_normalPrio, normalPrio]
    intro hrt
    rw [hrt]
    exact hstatic.1

lemma normalInRange_renicedTask {t : TaskStruct} (h : t.InRange) {nice : ℤ}
    (hnice : -20 ≤ nice ∧ nice ≤ 19) (hrt : rtPolicy t.policy = false) :
    (renicedTask t nice).NormalInRange := by
  have hstatic := (h.setStaticPrio hnice).staticPrio
  refine ⟨?_, fun _ => ?_⟩
  · rw [renicedTask_normalPrio nice hrt]
    exact hstatic.2
  · rw [renicedTask_normalPrio nice hrt]
    exact hstatic.1

lemma normalInRange_forkedTask {t : TaskStruct} (h : t.NormalInRange) (hrange : t.InRange) :
    (forkedTask t).NormalInRange := by
  rcases forkedTask_fields t with ⟨hp, -, -, -, hn, -⟩
  cases hreset : t.schedResetOnFork with
  | false =>
      rw [copiedTask_of_not_reset hreset] at hp hn
      exact h.congr hp hn
  | true =>
      rcases copiedTask_reset hreset with ⟨-, -, hstatic, -, hn', -⟩
      have hdefault : maxRtPrio ≤ niceToPrio 0 ∧ niceToPrio 0 < maxPrio := by decide
      have hrange' :
          maxRtPrio ≤ (copiedTask t).staticPrio ∧ (copiedTask t).staticPrio < maxPrio := by
        rw [hstatic]
        split_ifs
        · exact hdefault
        · exact hdefault
        · exact hrange.staticPrio
      rw [← hn', ← hn] at hrange'
      exact ⟨hrange'.2, fun _ => hrange'.1⟩

/-! ## Effective priorities -/

/-- The priority of a task is in the range of `sched.h`, and the normal one unless a waiter lends
the task its priority. -/
@[mk_iff] structure TaskStruct.PrioOk (t : TaskStruct) : Prop where
  nonneg : 0 ≤ t.prio
  le : t.prio ≤ maxPrio - 1
  normal : t.topPiWaiter = none → t.prio = t.normalPrio

instance (t : TaskStruct) : Decidable t.PrioOk := decidable_of_iff _ (t.prioOk_iff).symm

lemma TaskStruct.PrioOk.congr {t t' : TaskStruct} (h : t.PrioOk) (hprio : t'.prio = t.prio)
    (hwaiter : t'.topPiWaiter = t.topPiWaiter) (hnormal : t'.normalPrio = t.normalPrio) :
    t'.PrioOk := by
  refine ⟨?_, ?_, ?_⟩
  · rw [hprio]
    exact h.nonneg
  · rw [hprio]
    exact h.le
  · rw [hwaiter, hprio, hnormal]
    exact h.normal

/-- `__setscheduler` takes the smaller one of the priorities of the task and of its waiter. -/
lemma prioOk_setscheduler {t : TaskStruct} (h : t.InRange) {policy prio : ℤ}
    (hprio : 0 ≤ prio ∧ prio < maxRtPrio) : (setscheduler t policy prio).PrioOk := by
  have hnormal : (setscheduler t policy prio).NormalInRange :=
    normalInRange_setscheduler h hprio.1
  have hvalid : (setscheduler t policy prio).Valid := valid_setscheduler h hprio
  rw [TaskStruct.prioOk_iff, setscheduler_prio]
  refine ⟨hvalid.rtMutexGetprio_nonneg, ?_, fun hwaiter => ?_⟩
  · have hle : rtMutexGetprio (setscheduler t policy prio) ≤
        (setscheduler t policy prio).normalPrio := by
      rw [rtMutexGetprio]
      split
      · exact le_rfl
      · exact min_le_right _ _
    exact Int.le_sub_one_of_lt (lt_of_le_of_lt hle hnormal.lt)
  · rw [rtMutexGetprio, hwaiter]

/-- `set_user_nice` keeps a lent priority and no other. -/
lemma prioOk_renicedTask {t : TaskStruct} (h : t.PrioOk) (hnormal : t.NormalInRange)
    (hrange : t.InRange) {nice : ℤ} (hnice : -20 ≤ nice ∧ nice ≤ 19)
    (hrt : rtPolicy t.policy = false) : (renicedTask t nice).PrioOk := by
  have hstatic := (hrange.setStaticPrio hnice).staticPrio
  have hnonneg : 0 ≤ niceToPrio nice := le_trans (by decide) hstatic.1
  rw [TaskStruct.prioOk_iff, renicedTask_prio nice hrt, renicedTask_topPiWaiter,
    renicedTask_normalPrio nice hrt]
  split_ifs with hprio
  · refine ⟨h.nonneg, h.le, fun hwaiter => ?_⟩
    rw [h.normal hwaiter, not_rtPrio (hnormal.le hrt)] at hprio
    exact Bool.noConfusion hprio
  · exact ⟨hnonneg, Int.le_sub_one_of_lt hstatic.2, fun _ => rfl⟩

/-- A child starts at the normal priority. -/
lemma prioOk_forkedTask {t : TaskStruct} (h : t.NormalInRange) (hrange : t.InRange) :
    (forkedTask t).PrioOk := by
  have hnormal := normalInRange_forkedTask h hrange
  have hvalid := valid_forkedTask hrange
  rcases forkedTask_fields t with ⟨-, -, -, hp, hn, -⟩
  have hprio : (forkedTask t).prio = (forkedTask t).normalPrio := by
    rw [hp, hn, copiedTask_prio]
  refine ⟨?_, ?_, fun _ => hprio⟩
  · rw [hprio]
    exact hvalid.normalPrio
  · rw [hprio]
    exact Int.le_sub_one_of_lt hnormal.lt

/-- **The WRR tick spoils the priority** of a task without waiters, and it leaves the range at
`MAX_PRIO - 1`. -/
lemma prioOk_incPrioWrr_iff {t : TaskStruct} (h : t.PrioOk) :
    (incPrioWrr t).PrioOk ↔ t.topPiWaiter ≠ none ∧ t.prio + 1 ≤ maxPrio - 1 := by
  have hnonneg := h.nonneg
  have hprio : (incPrioWrr t).prio = t.prio + 1 := by
    have hle : t.prio ≤ 139 := h.le
    show (if t.prio + 1 > 500 then 500 else t.prio + 1) = t.prio + 1
    rw [if_neg (by omega)]
  rw [TaskStruct.prioOk_iff, hprio]
  constructor
  · rintro ⟨-, hle, hnormal⟩
    refine ⟨fun hwaiter => ?_, hle⟩
    have heq : t.prio + 1 = t.normalPrio := hnormal hwaiter
    have hold := h.normal hwaiter
    omega
  · rintro ⟨hwaiter, hle⟩
    exact ⟨by omega, hle, fun hnone => absurd hnone hwaiter⟩

/-! ## The tick -/

/-- A tick raises the priority of the current task: a WRR task whose slice is not used up. -/
def RaisesPrio (cfg : Config) (s : Sys T E) : Prop :=
  (s.task s.core.curr).schedClass = .wrr ∧ (s.task s.core.curr).policy = schedWrr ∧
    0 < nextTimeSliceWrr cfg s s.core.curr

instance (cfg : Config) (s : Sys T E) : Decidable (RaisesPrio cfg s) :=
  inferInstanceAs (Decidable (_ ∧ _ ∧ _))

section

variable {K : Kernel T E} {s s' : Sys T E} {p : T}

omit [DecidableEq T] in
lemma SameSlices.nextTimeSliceWrr (h : SameSlices s s') (cfg : Config) (p : T) :
    nextTimeSliceWrr cfg s' p = nextTimeSliceWrr cfg s p := by
  simp only [Sched.nextTimeSliceWrr, Sys.task, h.wrr p, h.core]

lemma core_sliceTickWrr (cfg : Config) (s : Sys T E) (p : T) : (sliceTickWrr cfg s p).core =
    if (s.task p).policy = schedWrr ∧ 0 < nextTimeSliceWrr cfg s p then
      s.core.setTask p incPrioWrr
    else s.core := by
  rw [sliceTickWrr]
  by_cases hpolicy : (s.task p).policy = schedWrr
  · rw [if_neg (not_not.mpr hpolicy)]
    by_cases hslice : 0 < nextTimeSliceWrr cfg s p
    · rw [if_pos hslice, if_pos ⟨hpolicy, hslice⟩]
      rfl
    · rw [if_neg hslice, if_neg fun h => hslice h.2]
      exact (keeps_expireWrr cfg s p).core
  · rw [if_pos hpolicy, if_neg fun h => hpolicy h.1]

/-- **When a tick raises a priority.** -/
theorem core_schedulerTick (s : Sys T E) : (schedulerTick K s).core =
    if RaisesPrio K.toConfig s then s.core.setTask s.core.curr incPrioWrr else s.core := by
  have hclock := sameSlices_updateRqClock (K := K) s
  by_cases hclass : (s.task s.core.curr).schedClass = .wrr
  · have hwatch : SameSlices s (watchdogWrr K.toConfig (updateCurrWrr (updateRqClock K s))
        s.core.curr) :=
      (hclock.trans (sameSlices_updateCurrWrr _)).trans (sameSlices_watchdogWrr _ _ _)
    have htick : schedulerTick K s = sliceTickWrr K.toConfig (watchdogWrr K.toConfig
        (updateCurrWrr (updateRqClock K s)) s.core.curr) s.core.curr := by
      rw [schedulerTick, classTaskTick, Sys.task, hclock.core, hclass, taskTickWrr]
    have hraises : RaisesPrio K.toConfig s ↔ (s.task s.core.curr).policy = schedWrr ∧
        0 < nextTimeSliceWrr K.toConfig s s.core.curr := and_iff_right hclass
    rw [htick, core_sliceTickWrr, hwatch.nextTimeSliceWrr, Sys.task, hwatch.core]
    simp only [hraises]
  · rw [if_neg fun h => hclass h.1]
    rcases keeps_classTaskTick K (updateRqClock K s) with hkeeps | ⟨hwrr, -⟩
    · exact hkeeps.core.trans hclock.core
    · rw [Sys.task, hclock.core] at hwrr
      exact absurd hwrr hclass

/-! ## Operations -/

/-- The operations that do not come from priority inheritance. -/
def Op.LeavesPi : Op T → Prop
  | .setTopPiWaiter _ _ | .rtMutexSetprio _ _ => False
  | _ => True

instance : (op : Op T) → Decidable op.LeavesPi
  | .setTopPiWaiter _ _ | .rtMutexSetprio _ _ => .isFalse id
  | .fork _ | .wakeUpNewTask _ | .tryToWakeUp _ _ | .setCurrentState _ | .schedule _
  | .schedYield _ | .schedulerTick | .pickNextTask | .setscheduler _ _ _ _ | .setUserNice _ _
  | .schedMoveTask _ _ | .writeField _ _ | .schedRtPeriodTimer _ => .isTrue trivial

/-- When an operation keeps the priorities: a tick may raise a lent priority only, and not past
`MAX_PRIO - 1`. -/
def KeepsPrio (cfg : Config) (s : Sys T E) : Op T → Prop
  | .schedulerTick => RaisesPrio cfg s →
      (s.task s.core.curr).topPiWaiter ≠ none ∧ (s.task s.core.curr).prio + 1 ≤ maxPrio - 1
  | _ => True

instance (cfg : Config) (s : Sys T E) : (op : Op T) → Decidable (KeepsPrio cfg s op)
  | .schedulerTick => inferInstanceAs (Decidable (_ → _ ∧ _))
  | .fork _ | .wakeUpNewTask _ | .tryToWakeUp _ _ | .setCurrentState _ | .schedule _
  | .schedYield _ | .pickNextTask | .setscheduler _ _ _ _ | .setUserNice _ _ | .setTopPiWaiter _ _
  | .rtMutexSetprio _ _ | .schedMoveTask _ _ | .writeField _ _
  | .schedRtPeriodTimer _ => .isTrue trivial

omit [DecidableEq T] in
lemma keepsPrio_of_ne {cfg : Config} {op : Op T} (h : op ≠ .schedulerTick) :
    KeepsPrio cfg s op := by
  cases op with
  | schedulerTick => exact absurd rfl h
  | _ => trivial

variable {queued : E → SchedClass → Finset T} {c : Core T} {wrr : List T} {op : Op T}
  {boot : Boot T}

/-- No operation takes a normal priority out of its range. -/
theorem Writes.normalInRange (hop : Allowed s op) (hwrites : Writes s op c)
    (hrange : ∀ p, (s.task p).InRange) (h : ∀ p, (s.task p).NormalInRange) (p : T) :
    (c.task p).NormalInRange := by
  have hparams : SameParams s.core c → (c.task p).NormalInRange := fun hsame =>
    (h p).congr (congrArg TaskStruct.policy (hsame.task p) :)
      (congrArg TaskStruct.normalPrio (hsame.task p) :)
  rcases hwrites with
    ⟨hsame, -⟩ | ⟨hsame, -⟩ | _ | ⟨-, -⟩ | ⟨hnice, hrt⟩ | _ | _ | _
  · exact hparams hsame.toSameParams
  · exact hparams hsame
  · exact Core.forall_setTask h (f := fun _ => forkedTask _)
      (normalInRange_forkedTask (h _) (hrange _)) p
  · exact Core.forall_setTask h
      (normalInRange_setscheduler ((hrange _).setResetOnFork _) hop.2.2.1) p
  · exact Core.forall_setTask h (normalInRange_renicedTask (hrange _) hnice hrt) p
  · exact Core.forall_setTask h ((h _).congr rfl rfl) p
  · exact Core.forall_setTask h ((h _).congr rfl rfl) p
  · exact Core.forall_setTask h ((h _).congr rfl rfl) p

lemma init_prios (boot : Boot T) (p : T) :
    ((init K boot).task p).NormalInRange ∧ ((init K boot).task p).PrioOk := by
  have hnormal : (initTask K.toConfig).NormalInRange :=
    ⟨show (120 : ℤ) < 140 by decide, fun _ => show (100 : ℤ) ≤ 120 by decide⟩
  have hok : (initTask K.toConfig).PrioOk :=
    ⟨show (0 : ℤ) ≤ 120 by decide, show (120 : ℤ) ≤ 139 by decide, fun _ => rfl⟩
  rcases init_task (K := K) boot p with ⟨htask, -⟩ | htask | htask
  · rw [htask]
    exact ⟨hnormal.congr rfl rfl, hok.congr rfl rfl rfl⟩
  · rw [htask]
    refine ⟨⟨show (0 : ℤ) < 140 by decide, fun hrt => ?_⟩,
      ⟨le_refl (0 : ℤ), show (0 : ℤ) ≤ 139 by decide, fun _ => rfl⟩⟩
    exact absurd (show rtPolicy schedFifo = false from hrt) (by decide)
  · rw [htask]
    exact ⟨hnormal, hok⟩

/-- **Normal priorities stay in their range** in every reachable state, with priority inheritance as
without. -/
theorem Reachable.normalInRange (hK : Laws K queued) (h : Reachable K boot s) (p : T) :
    (s.task p).NormalInRange :=
  Run.forall_task hK (fun _ _ hop => hop) (fun p => (init_prios boot p).1)
    (fun hop hwrites hvalid => hwrites.normalInRange hop fun p => (hvalid p).toInRange) h p

/-- Only ticks take an effective priority out of its range. -/
theorem Writes.prioOk (hop : Allowed s op) (hpi : op.LeavesPi) (htick : op ≠ .schedulerTick)
    (hwrites : Writes s op c) (hrange : ∀ p, (s.task p).InRange)
    (hnormal : ∀ p, (s.task p).NormalInRange) (h : ∀ p, (s.task p).PrioOk) (p : T) :
    (c.task p).PrioOk := by
  have hparams : SameParams s.core c → (c.task p).PrioOk := fun hsame =>
    (h p).congr (congrArg TaskStruct.prio (hsame.task p) :)
      (congrArg TaskStruct.topPiWaiter (hsame.task p) :)
      (congrArg TaskStruct.normalPrio (hsame.task p) :)
  rcases hwrites with
    ⟨hsame, -⟩ | ⟨hsame, -⟩ | _ | ⟨-, -⟩ | ⟨hnice, hrt⟩ | _ | _ | _
  · exact hparams hsame.toSameParams
  · exact hparams hsame
  · exact Core.forall_setTask h (f := fun _ => forkedTask _)
      (prioOk_forkedTask (hnormal _) (hrange _)) p
  · exact Core.forall_setTask h (prioOk_setscheduler ((hrange _).setResetOnFork _)
      ⟨hop.2.2.1, Int.lt_of_le_sub_one hop.2.2.2.1⟩) p
  · exact Core.forall_setTask h (prioOk_renicedTask (h _) (hnormal _) (hrange _) hnice hrt) p
  · exact hpi.elim
  · exact hpi.elim
  · exact absurd rfl htick

/-- **The exact condition under which an operation keeps the priorities.** -/
theorem prioOk_step_iff (hK : Laws K queued) (h : Inv K queued s wrr)
    (hnormal : ∀ p, (s.task p).NormalInRange) (hok : ∀ p, (s.task p).PrioOk) (hop : Allowed s op)
    (hpi : op.LeavesPi) (hstep : step K s op = .ok s') :
    (∀ p, (s'.task p).PrioOk) ↔ KeepsPrio K.toConfig s op := by
  by_cases htick : op = .schedulerTick
  · obtain rfl := htick
    obtain rfl := Except.ok.inj hstep
    simp only [Sys.task, core_schedulerTick]
    by_cases hraises : RaisesPrio K.toConfig s
    · rw [if_pos hraises, KeepsPrio, ← prioOk_incPrioWrr_iff (hok s.core.curr)]
      constructor
      · intro hall _
        have hcurr := hall s.core.curr
        rwa [Core.setTask_self] at hcurr
      · exact fun hcurr => Core.forall_setTask hok (hcurr hraises)
    · rw [if_neg hraises]
      exact iff_of_true hok fun hraises' => absurd hraises' hraises
  · refine iff_of_true ?_ (keepsPrio_of_ne htick)
    exact (step_writes hK h hop hstep).prioOk hop hpi htick
      (fun p => (h.core.valid p).toInRange) hnormal hok

/-! ## Runs -/

lemma Run.prioOk (hK : Laws K queued) {s₀ : Sys T E} (h₀ : Reachable K boot s₀)
    (hok : ∀ p, (s₀.task p).PrioOk)
    (h : Run K s₀ (fun s op => Allowed s op ∧ op.LeavesPi ∧ KeepsPrio K.toConfig s op) s) :
    Reachable K boot s ∧ ∀ p, (s.task p).PrioOk := by
  induction h with
  | init => exact ⟨h₀, hok⟩
  | step _ hop hstep ih =>
      rcases ih with ⟨hreach, hprio⟩
      rcases hreach.inv hK with ⟨wrr, hinv⟩
      refine ⟨Run.step hreach hop.1 hstep, ?_⟩
      exact (prioOk_step_iff hK hinv (hreach.normalInRange hK) hprio hop.1 hop.2.1 hstep).mpr
        hop.2.2

/-- **Priorities stay in their range as long as no tick raises one**, and not longer: from the
start, and from every reachable state with the priorities in range, any sequence of operations other
than those of priority inheritance keeps them there, if every tick meets the condition. -/
theorem prio_in_range (hK : Laws K queued) (boot : Boot T) :
    (∀ p, ((init K boot).task p).PrioOk) ∧
    ∀ s₀ s, Reachable K boot s₀ → (∀ p, (s₀.task p).PrioOk) →
      Run K s₀ (fun s op => Allowed s op ∧ op.LeavesPi ∧ KeepsPrio K.toConfig s op) s →
      (∀ p, (s.task p).PrioOk) ∧
      ∀ op s', Allowed s op → op.LeavesPi → step K s op = .ok s' →
        ((∀ p, (s'.task p).PrioOk) ↔ KeepsPrio K.toConfig s op) := by
  refine ⟨fun p => (init_prios boot p).2, fun s₀ s h₀ hok h => ?_⟩
  rcases h.prioOk hK h₀ hok with ⟨hreach, hprio⟩
  rcases hreach.inv hK with ⟨wrr, hinv⟩
  exact ⟨hprio, fun op s' hop hpi hstep =>
    prioOk_step_iff hK hinv (hreach.normalInRange hK) hprio hop hpi hstep⟩

end

/-- One tick raises the priority of a WRR task with nice level 19 to `MAX_PRIO`. -/
theorem prio_out_of_range :
    ∃ s, runOps (fifoKernel smallConfig) (fun s op => Allowed s op ∧ op.LeavesPi)
        (init (fifoKernel smallConfig) smallBoot)
        [.fork 2, .wakeUpNewTask 2, .schedule ⟨false, false, none⟩,
          .setscheduler 2 schedWrr 0 false, .setUserNice 2 19, .schedulerTick] = some s ∧
      (s.task 2).prio = maxPrio ∧ (s.task 2).normalPrio = maxPrio - 1 ∧
      (s.task 2).topPiWaiter = none ∧ ¬(s.task 2).PrioOk := by
  exact exists_of_any (by decide)

/-- A WRR task that forks, is reniced and changes its policy before its first tick. -/
theorem prio_in_range_two :
    ∃ s, runOps (fifoKernel smallConfig)
        (fun s op => Allowed s op ∧ op.LeavesPi ∧ KeepsPrio smallConfig s op)
        (init (fifoKernel smallConfig) smallBoot)
        [.fork 2, .wakeUpNewTask 2, .schedule ⟨false, false, none⟩,
          .setscheduler 2 schedWrr 0 false, .fork 3, .setUserNice 2 19,
          .setscheduler 2 schedRr 5 false, .schedulerTick] = some s ∧
      ∀ p, (s.task p).PrioOk := by
  refine Option.isSome_iff_exists.mp ?_ |>.imp fun s hs => ⟨hs, ?_⟩
  · decide
  · have hrange := prio_in_range (fifoKernel_laws smallConfig) smallBoot
    exact (hrange.2 _ s .init hrange.1 (Run.runOps _ .init hs)).1

end Sched
