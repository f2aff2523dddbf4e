import OsPrj.Sched.Setscheduler

/-!
# Callers without privileges

* `NormalFair` — a fair task is one by its normal priority.
* `fair_rank_iff` — which calls of a user without `CAP_SYS_NICE` and without real-time limit take
  a fair task **above the fair class**.
-/

namespace Sched

variable {T E : Type} [DecidableEq T]

/-- What `kernel/rtmutex.c` asks `rt_mutex_setprio` for: the priority of `rt_mutex_getprio`. -/
def PiCall (s : Sys T E) : Op T → Prop
  | .rtMutexSetprio p prio => prio = rtMutexGetprio (s.task p)
  | _ => True

instance (s : Sys T E) : (op : Op T) → Decidable (PiCall s op)
  | .rtMutexSetprio p prio => inferInstanceAs (Decidable (prio = rtMutexGetprio (s.task p)))
  | .fork _ | .wakeUpNewTask _ | .tryToWakeUp _ _ | .setCurrentState _ | .schedule _
  | .schedYield _ | .schedulerTick | .pickNextTask | .setscheduler _ _ _ _ | .setUserNice _ _
  | .setTopPiWaiter _ _ | .schedMoveTask _ _ | .writeField _ _ | .schedRtPeriodTimer _ =>
      .isTrue trivial

/-- The operations that callers perform, the PI code among them. -/
def AllowedPi (s : Sys T E) (op : Op T) : Prop := Allowed s op ∧ PiCall s op

instance (s : Sys T E) (op : Op T) : Decidable (AllowedPi s op) :=
  inferInstanceAs (Decidable (_ ∧ _))

/-! ## Fair tasks -/

/-- A fair task is one by its normal priority, not by a boost. -/
def TaskStruct.NormalFair (t : TaskStruct) : Prop := t.schedClass = .fair → maxRtPrio ≤ t.normalPrio

lemma TaskStruct.NormalFair.congr {t t' : TaskStruct} (h : t.NormalFair)
    (hclass : t'.schedClass = t.schedClass) (hnormal : t'.normalPrio = t.normalPrio) :
    t'.NormalFair := by
  rw [NormalFair, hclass, hnormal]
  exact h

lemma le_normalPrio_of_getprio {t : TaskStruct} (h : rtPrio (rtMutexGetprio t) = false) :
    maxRtPrio ≤ t.normalPrio := by
  have hle := not_lt.mp (of_decide_eq_false h)
  rw [rtMutexGetprio] at hle
  cases hw : t.topPiWaiter with
  | none => rwa [hw] at hle
  | some w =>
      rw [hw] at hle
      exact hle.trans (min_le_right _ _)

lemma normalFair_setscheduler (t : TaskStruct) (policy prio : ℤ) :
    (setscheduler t policy prio).NormalFair := by
  rw [TaskStruct.NormalFair, setscheduler_schedClass, setscheduler_prio]
  intro hclass
  split_ifs at hclass with hwrr hrt
  exact le_normalPrio_of_getprio (Bool.eq_false_of_not_eq_true hrt)

lemma normalFair_boostedTask {t : TaskStruct} {prio : ℤ} (hprio : prio = rtMutexGetprio t) :
    (boostedTask t prio).NormalFair := by
  intro hclass
  refine le_normalPrio_of_getprio (t := t) ?_
  rw [← hprio]
  by_contra hrt
  rw [boostedTask, Bool.eq_true_of_not_eq_false hrt] at hclass
  exact SchedClass.noConfusion hclass

lemma normalFair_renicedTask {t : TaskStruct} (h : t.Valid) {nice : ℤ}
    (hnice : -20 ≤ nice ∧ nice ≤ 19) (hrt : rtPolicy t.policy = false) :
    (renicedTask t nice).NormalFair := by
  intro _
  rw [renicedTask_normalPrio nice hrt]
  exact (h.setStaticPrio hnice).staticPrio.1

lemma normalFair_forkedTask {t : TaskStruct} (h : t.NormalFair) (hrange : t.InRange) :
    (forkedTask t).NormalFair := by
  intro hclass
  rw [(forkedTask_fields t).2.2.2.2.1]
  cases hreset : t.schedResetOnFork with
  | true =>
      rcases copiedTask_reset hreset with ⟨-, -, hstatic, -, hnormal, -⟩
      rw [hnormal, hstatic]
      split_ifs
      · decide
      · decide
      · exact hrange.staticPrio.1
  | false =>
      rw [forkedTask_eq, copiedTask_of_not_reset hreset] at hclass
      rw [copiedTask_of_not_reset hreset]
      by_cases hrt : rtPrio t.normalPrio = true
      · simp only [hrt, Bool.not_true, Bool.false_eq_true, if_false] at hclass
        exact h hclass
      · exact not_lt.mp (of_decide_eq_false (Bool.eq_false_of_not_eq_true hrt))

/-! ## Runs -/

section

variable {K : Kernel T E} {queued : E → SchedClass → Finset T} {s s' : Sys T E} {c : Core T}
  {boot : Boot T}

omit [DecidableEq T] in
lemma SameParams.normalFair (hsame : SameParams s.core c) (h : ∀ p, (s.task p).NormalFair) (p : T) :
    (c.task p).NormalFair := by
  have hparams := hsame.task p
  exact (h p).congr (congrArg TaskStruct.schedClass hparams :)
    (congrArg TaskStruct.normalPrio hparams :)

/-- No operation leaves a boosted task in the fair class. -/
theorem Writes.normalFair {op : Op T} (hpi : PiCall s op) (hwrites : Writes s op c)
    (hvalid : ∀ p, (s.task p).Valid) (h : ∀ p, (s.task p).NormalFair) (p : T) :
    (c.task p).NormalFair := by
  rcases hwrites with
    ⟨hsame, -⟩ | ⟨hsame, -⟩ | _ | ⟨-, -⟩ | ⟨hnice, hrt⟩ | _ | _ | _
  · exact hsame.toSameParams.normalFair h p
  · exact hsame.normalFair h p
  · exact Core.forall_setTask h (f := fun _ => forkedTask _)
      (normalFair_forkedTask (h _) (hvalid _).toInRange) p
  · exact Core.forall_setTask h (normalFair_setscheduler _ _ _) p
  · exact Core.forall_setTask h (normalFair_renicedTask (hvalid _) hnice hrt) p
  · exact Core.forall_setTask h ((h _).congr rfl rfl) p
  · exact Core.forall_setTask h (normalFair_boostedTask hpi) p
  · exact Core.forall_setTask h ((h _).congr rfl rfl) p

lemma normalFair_init (boot : Boot T) (p : T) : ((init K boot).task p).NormalFair := by
  have hle : maxRtPrio ≤ (initTask K.toConfig).normalPrio :=
    show (100 : ℤ) ≤ 100 + 40 - 20 by decide
  rcases init_task (K := K) boot p with ⟨htask, -⟩ | htask | htask
  · rw [htask]
    exact fun _ => hle
  · rw [htask]
    exact fun hclass => SchedClass.noConfusion hclass
  · rw [htask]
    exact fun _ => hle

/-- **A task is not a fair one by its boost**, in every state that the callers and the PI code lead
to. -/
theorem Run.normalFair (hK : Laws K queued) (h : Run K (Sched.init K boot) AllowedPi s) (p : T) :
    (s.task p).NormalFair :=
  h.forall_task hK (fun _ _ => And.left) (normalFair_init boot)
    (fun hop hwrites => hwrites.normalFair hop.2) p

/-! ## The call -/

/-- The calls that the checks let into WRR, when the caller is a user without `CAP_SYS_NICE`. -/
@[mk_iff] structure EntersWrr (t : TaskStruct) (c : Caller) (policy prio : ℤ) : Prop where
  asked : requestedPolicy t policy = schedWrr
  range : 0 ≤ prio ∧ prio ≤ 99
  fromIdle : t.policy = schedIdle → canNice t c (prioToNice t.staticPrio) = true
  owner : c.sameOwner = true
  resetOnFork : t.schedResetOnFork = true → requestedReset t policy = true
  security : c.security = 0

/-- Neither of the two tests for real-time policies looks at WRR. -/
lemma passes_iff_entersWrr {t : TaskStruct} {c : Caller} {policy prio : ℤ} (huser : c.user = true)
    (hcap : c.capSysNice = false) (hasked : requestedPolicy t policy = schedWrr) :
    Passes t c policy prio ↔ EntersWrr t c policy prio := by
  have hknown : KnownPolicy schedWrr := .inr (.inr (.inr (.inr (.inr rfl))))
  have hidle : schedWrr ≠ schedIdle := by decide
  rw [passes_iff, entersWrr_iff, permitted_iff, hasked, rtPolicy_schedWrr]
  constructor
  · rintro ⟨-, hrange, -, hpermitted, hsecurity⟩
    rcases hpermitted huser hcap with ⟨-, -, hfrom, howner, hreset⟩
    exact ⟨rfl, hrange, fun h => hfrom h hidle, howner, hreset, hsecurity huser⟩
  · rintro ⟨-, hrange, hfrom, howner, hreset, hsecurity⟩
    exact ⟨fun _ => hknown, hrange, .inr rfl, fun _ _ => ⟨fun h => Bool.noConfusion h,
      fun h => Bool.noConfusion h, fun h _ => hfrom h, howner, hreset⟩, fun _ => hsecurity⟩

/-- A fair task with another policy than WRR stays one. -/
lemma setscheduler_fair {t : TaskStruct} (hrange : t.InRange)
    (hpi : ∀ w ∈ t.topPiWaiter, maxRtPrio ≤ w) {policy : ℤ} (prio : ℤ) (hwrr : policy ≠ schedWrr)
    (hrt : rtPolicy policy = false) : (setscheduler t policy prio).schedClass = .fair := by
  have hnormal : normalPrio { t with policy := policy, rtPriority := prio } = t.staticPrio := by
    rw [normalPrio, hrt]
    rfl
  rw [setscheduler_schedClass, if_neg hwrr, if_neg]
  rw [Bool.not_eq_true]
  refine not_rtPrio ?_
  rw [setscheduler_prio, rtMutexGetprio, setscheduler_topPiWaiter, setscheduler_normalPrio, hnormal]
  cases hw : t.topPiWaiter with
  | none => exact hrange.staticPrio.1
  | some w => exact le_min (hpi w hw) hrange.staticPrio.1

/-- **Which calls take a fair task above the fair class**: those that ask for WRR and pass the
checks that are left for it.  No real-time task waits for the task, and the caller is a user without
`CAP_SYS_NICE`. -/
theorem fair_rank_iff (hK : Laws K queued) (h : Run K (init K boot) AllowedPi s) {p : T}
    (hclass : (s.task p).schedClass = .fair) (hpi : ∀ w ∈ (s.task p).topPiWaiter, maxRtPrio ≤ w)
    (hrlimit : (s.task p).rlimitRtprio = 0) {c : Caller} (huser : c.user = true)
    (hcap : c.capSysNice = false) (policy prio : ℤ) :
    ((schedSetscheduler K s p policy prio c).2.task p).schedClass.rank ≤ SchedClass.fair.rank ↔
      ¬(EntersWrr (s.task p) c policy prio ∧ (s.task p).policy ≠ schedWrr ∧
        s.core.stop ≠ some p) := by
  have hreach : Reachable K boot s := h.mono fun _ _ hok => hok.1
  rcases hreach.inv hK with ⟨wrr, hinv⟩
  have hrange := (hinv.core.valid p).toInRange
  have hsame : (s.task p).schedClass.rank ≤ SchedClass.fair.rank := by rw [hclass]
  rw [schedSetscheduler]
  cases hchecks : setschedulerChecks (s.task p) c policy prio with
  | error e =>
      refine iff_of_true hsame ?_
      rintro ⟨henters, -, -⟩
      have hpasses := (passes_iff_entersWrr huser hcap henters.asked).mpr henters
      rw [(setschedulerChecks_ok_iff _ _ _ _ _).mpr ⟨hpasses, rfl⟩] at hchecks
      exact absurd hchecks (by simp)
  | ok v =>
      rcases (setschedulerChecks_ok_iff _ _ _ _ v).mp hchecks with ⟨hpasses, rfl⟩
      show ((setschedulerLocked K s p _ prio _).2.task p).schedClass.rank ≤ _ ↔ _
      rw [setschedulerLocked]
      by_cases hstop : s.core.stop = some p
      · rw [if_pos hstop]
        exact iff_of_true hsame fun henters => henters.2.2 hstop
      rw [if_neg hstop]
      by_cases hdone : requestedPolicy (s.task p) policy = (s.task p).policy ∧
          (rtPolicy (requestedPolicy (s.task p) policy) = false ∨ prio = (s.task p).rtPriority)
      · rw [if_pos hdone]
        exact iff_of_true hsame fun henters => henters.2.1 (hdone.1.symm.trans henters.1.asked)
      rw [if_neg hdone, Sys.task, core_setschedulerChange, Core.setTask_self]
      by_cases hwrr : requestedPolicy (s.task p) policy = schedWrr
      · have hne : (s.task p).policy ≠ schedWrr := by
          intro hpol
          refine hdone ⟨hwrr.trans hpol.symm, .inl ?_⟩
          rw [hwrr]
          exact rtPolicy_schedWrr
        rw [setscheduler_schedClass, if_pos hwrr]
        exact iff_of_false (by decide) (not_not.mpr
          ⟨(passes_iff_entersWrr huser hcap hwrr).mp hpasses, hne, hstop⟩)
      · have hrt : rtPolicy (requestedPolicy (s.task p) policy) = false := by
          by_contra hrt
          rw [Bool.not_eq_false] at hrt
          refine (hpasses.permitted huser hcap).rtLimit hrt ?_ hrlimit
          intro hpol
          -- a fair task has no real-time policy
          have hle := h.normalFair hK p hclass
          rw [(hreach.wellSet hK p).normalPrio (hpol ▸ hrt)] at hle
          have hprio : 0 ≤ (s.task p).rtPriority := hrange.rtPriority.1
          omega
        have hreset := hrange.setResetOnFork (requestedReset (s.task p) policy)
        have hfair := setscheduler_fair hreset hpi prio hwrr hrt
        exact iff_of_true (le_of_eq (congrArg SchedClass.rank hfair)) fun henters =>
          hwrr henters.1.asked

end

/-- The owner of a fair task asks for another nice policy. -/
theorem fair_rank_batch :
    ∃ s, runOps (fifoKernel smallConfig) AllowedPi (init (fifoKernel smallConfig) smallBoot)
        [.fork 2, .wakeUpNewTask 2] = some s ∧
      ((schedSetscheduler (fifoKernel smallConfig) s 2 schedBatch 0
        ⟨true, false, true, 0⟩).2.task 2).schedClass.rank ≤ SchedClass.fair.rank := by
  have hrun : ∃ s, runOps (fifoKernel smallConfig) AllowedPi
      (init (fifoKernel smallConfig) smallBoot) [.fork 2, .wakeUpNewTask 2] = some s ∧
      (s.task 2).schedClass = .fair ∧ (s.task 2).topPiWaiter = none ∧
      (s.task 2).rlimitRtprio = 0 := exists_of_any (by decide)
  rcases hrun with ⟨s, hs, hclass, hpi, hrlimit⟩
  refine ⟨s, hs, (fair_rank_iff (fifoKernel_laws smallConfig) (Run.runOps _ .init hs) hclass
    (by simp [hpi]) hrlimit rfl rfl schedBatch 0).mpr ?_⟩
  rintro ⟨henters, -, -⟩
  have hasked : requestedPolicy (s.task 2) schedBatch = schedBatch := rfl
  exact absurd (hasked.symm.trans henters.asked) (by decide)

/-- The owner of a fair task asks for WRR: the task is in a class above. -/
theorem fair_rank_wrr :
    ∃ s, runOps (fifoKernel smallConfig) AllowedPi (init (fifoKernel smallConfig) smallBoot)
        [.fork 2, .wakeUpNewTask 2] = some s ∧
      (s.task 2).schedClass = .fair ∧ (s.task 2).topPiWaiter = none ∧
      (s.task 2).rlimitRtprio = 0 ∧
      ((schedSetscheduler (fifoKernel smallConfig) s 2 schedWrr 10
        ⟨true, false, true, 0⟩).2.task 2).schedClass = .wrr ∧
      ¬SchedClass.wrr.rank ≤ SchedClass.fair.rank := by
  exact exists_of_any (by decide)

/-- A `SCHED_IDLE` task of nice value 0 comes into WRR once its `RLIMIT_NICE` is 20. -/
example :
    ∃ s, runOps (fifoKernel smallConfig) AllowedPi (init (fifoKernel smallConfig) smallBoot)
        [.fork 2, .wakeUpNewTask 2, .setscheduler 2 schedIdle 0 false,
          .writeField 2 (.rlimitNice 20)] = some s ∧
      (s.task 2).schedClass = .fair ∧
      (schedSetscheduler (fifoKernel smallConfig)
        (s.setTask 2 fun t => { t with rlimitNice := 19 }) 2 schedWrr 0
        ⟨true, false, true, 0⟩).1 = eperm ∧
      ((schedSetscheduler (fifoKernel smallConfig) s 2 schedWrr 0
        ⟨true, false, true, 0⟩).2.task 2).schedClass = .wrr :=
  exists_of_any (by decide)

end Sched
