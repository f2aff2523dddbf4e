import OsPrj.Sched.ClassAgrees

/-!
# Policies and real-time priorities

`policy`, `rt_priority` and `normal_prio` are written together, by `__setscheduler` and by the reset
in `sched_fork`.

* `TaskStruct.WellSet` — how they go together.
* `Reachable.wellSet` — they do, **in every reachable state**.
* `reset_on_fork_iff` — when `sched_reset_on_fork` gives the child a default policy.
-/

namespace Sched

variable {T E : Type} [DecidableEq T]

/-! ## Parameters that go together -/

/-- The parameters are such as `__sched_setscheduler` lets through: only FIFO, RR and WRR tasks
have a real-time priority, and FIFO and RR tasks have their `normal_prio` from it. -/
structure TaskStruct.WellSet (t : TaskStruct) : Prop where
  policy : t.policy = schedNormal ∨ t.policy = schedFifo ∨ t.policy = schedRr ∨
    t.policy = schedBatch ∨ t.policy = schedIdle ∨ t.policy = schedWrr
  rtPriority : rtPolicy t.policy = false → t.policy ≠ schedWrr → t.rtPriority = 0
  normalPrio : rtPolicy t.policy = true → t.normalPrio = maxRtPrio - 1 - t.rtPriority

lemma TaskStruct.WellSet.congr {t t' : TaskStruct} (h : t.WellSet) (hpolicy : t'.policy = t.policy)
    (hrt : t'.rtPriority = t.rtPriority) (hnormal : t'.normalPrio = t.normalPrio) :
    t'.WellSet := by
  refine ⟨?_, ?_, ?_⟩
  · rw [hpolicy]
    exact h.policy
  · rw [hpolicy, hrt]
    exact h.rtPriority
  · rw [hpolicy, hrt, hnormal]
    exact h.normalPrio

/-- Neither a real-time policy nor WRR. -/
lemma TaskStruct.WellSet.default (t : TaskStruct) (h : t.WellSet) (hrt : rtPolicy t.policy = false)
    (hwrr : t.policy ≠ schedWrr) :
    t.policy = schedNormal ∨ t.policy = schedBatch ∨ t.policy = schedIdle := by
  rcases h.policy with hp | hp | hp | hp | hp | hp
  · exact .inl hp
  · rw [hp] at hrt
    exact absurd hrt (by decide)
  · rw [hp] at hrt
    exact absurd hrt (by decide)
  · exact .inr (.inl hp)
  · exact .inr (.inr hp)
  · exact absurd hp hwrr

lemma wellSet_setscheduler (t : TaskStruct) {policy prio : ℤ} (h : ValidParam policy prio) :
    (setscheduler t policy prio).WellSet := by
  rcases h with ⟨hpolicy, -, -, hprio⟩
  refine ⟨?_, ?_, ?_⟩
  · rw [setscheduler_policy]
    exact hpolicy
  · rw [setscheduler_policy, setscheduler_rtPriority]
    intro hrt hwrr
    rcases hprio with hprio | hprio
    · rw [hrt] at hprio
      exact not_not.mp (of_decide_eq_false hprio.symm)
    · exact absurd hprio hwrr
  · rw [setscheduler_policy, setscheduler_rtPriority, setscheduler_normalPrio, normalPrio]
    exact fun hrt => if_pos hrt

lemma wellSet_renicedTask {t : TaskStruct} (h : t.WellSet) {nice : ℤ}
    (hrt : rtPolicy t.policy = false) : (renicedTask t nice).WellSet := by
  refine ⟨?_, ?_, fun hrt' => ?_⟩
  · rw [renicedTask_policy]
    exact h.policy
  · rw [renicedTask_policy, renicedTask_rtPriority]
    exact h.rtPriority
  · rw [renicedTask_policy, hrt] at hrt'
    exact Bool.noConfusion hrt'

/-! ## sched_fork -/

/-- What the reset in `sched_fork` is for. -/
structure TaskStruct.IsReset (t : TaskStruct) : Prop where
  policy : t.policy = schedNormal ∨ t.policy = schedBatch ∨ t.policy = schedIdle
  rtPriority : t.rtPriority = 0
  nice : 0 ≤ prioToNice t.staticPrio
  prio : t.prio = t.normalPrio ∧ t.normalPrio = t.staticPrio
  schedClass : t.schedClass = .fair
  schedResetOnFork : t.schedResetOnFork = false

/-- The reset, case by case on the policy of the parent. -/
lemma copiedTask_reset {t : TaskStruct} (hreset : t.schedResetOnFork = true) :
    (copiedTask t).policy = (if rtPolicy t.policy then schedNormal else t.policy) ∧
      (copiedTask t).rtPriority = (if rtPolicy t.policy then 0 else t.rtPriority) ∧
      (copiedTask t).staticPrio = (if rtPolicy t.policy then niceToPrio 0
        else if prioToNice t.staticPrio < 0 then niceToPrio 0 else t.staticPrio) ∧
      (copiedTask t).prio = (copiedTask t).staticPrio ∧
      (copiedTask t).normalPrio = (copiedTask t).staticPrio ∧
      (copiedTask t).schedResetOnFork = false := by
  rw [copiedTask, resetTask, if_pos hreset]
  cases rtPolicy t.policy with
  | true => simp
  | false =>
      by_cases hnice : prioToNice t.staticPrio < 0
      · simp [hnice]
      · simp [hnice]

lemma forkedTask_fields (t : TaskStruct) :
    (forkedTask t).policy = (copiedTask t).policy ∧
      (forkedTask t).rtPriority = (copiedTask t).rtPriority ∧
      (forkedTask t).staticPrio = (copiedTask t).staticPrio ∧
      (forkedTask t).prio = (copiedTask t).prio ∧
      (forkedTask t).normalPrio = (copiedTask t).normalPrio ∧
      (forkedTask t).schedResetOnFork = (copiedTask t).schedResetOnFork := by
  rw [forkedTask_eq]
  exact ⟨rfl, rfl, rfl, rfl, rfl, rfl⟩

lemma wellSet_forkedTask {t : TaskStruct} (h : t.WellSet) : (forkedTask t).WellSet := by
  rcases forkedTask_fields t with ⟨hp, hr, -, -, hn, -⟩
  cases hreset : t.schedResetOnFork with
  | false =>
      rw [copiedTask_of_not_reset hreset] at hp hr hn
      exact h.congr hp hr hn
  | true =>
      rcases copiedTask_reset hreset with ⟨hp', hr', -, -, hn', -⟩
      cases hrt : rtPolicy t.policy with
      | true =>
          rw [hrt, if_pos rfl] at hp' hr'
          refine ⟨.inl (hp.trans hp'), fun _ _ => hr.trans hr', fun hrt' => ?_⟩
          rw [hp, hp'] at hrt'
          exact absurd hrt' (by decide)
      | false =>
          rw [hrt] at hp' hr'
          simp only [Bool.false_eq_true, if_false] at hp' hr'
          refine ⟨?_, ?_, fun hrt' => ?_⟩
          · rw [hp, hp']
            exact h.policy
          · rw [hp, hp', hr, hr']
            exact h.rtPriority
          · rw [hp, hp', hrt] at hrt'
            exact Bool.noConfusion hrt'

/-- **When the child of a task that asks for the reset has defaults.** -/
theorem isReset_forkedTask_iff {t : TaskStruct} (h : t.WellSet) (hrange : t.InRange)
    (hreset : t.schedResetOnFork = true) : (forkedTask t).IsReset ↔ t.policy ≠ schedWrr := by
  rcases forkedTask_fields t with ⟨hp, hr, hstatic, hprio, hn, hflag⟩
  rcases copiedTask_reset hreset with ⟨hp', hr', hstatic', hprio', hn', hflag'⟩
  have hfair : (forkedTask t).schedClass = .fair := by
    rw [forkedTask_eq, (copiedTask_of_reset hrange hreset).1]
    rfl
  have hnice : 0 ≤ prioToNice (forkedTask t).staticPrio := by
    rw [hstatic, hstatic']
    split_ifs with hrt hneg
    · decide
    · decide
    · exact not_lt.mp hneg
  constructor
  · intro hdefault hwrr
    have hpolicy := hdefault.policy
    rw [hp, hp', hwrr, rtPolicy_schedWrr] at hpolicy
    exact absurd hpolicy (by decide)
  · intro hwrr
    refine ⟨?_, ?_, hnice, ⟨?_, ?_⟩, hfair, hflag.trans hflag'⟩
    · rw [hp, hp']
      cases hrt : rtPolicy t.policy with
      | true => exact .inl rfl
      | false => exact h.default t hrt hwrr
    · rw [hr, hr']
      cases hrt : rtPolicy t.policy with
      | true => rfl
      | false => exact h.rtPriority hrt hwrr
    · rw [hprio, hn, hprio', hn']
    · rw [hn, hn', hstatic]

/-! ## Runs -/

section

variable {K : Kernel T E} {queued : E → SchedClass → Finset T} {s s' : Sys T E} {c : Core T}

omit [DecidableEq T] in
lemma SameParams.wellSet (hsame : SameParams s.core c) (h : ∀ p, (s.task p).WellSet) (p : T) :
    (c.task p).WellSet := by
  have hparams := hsame.task p
  exact (h p).congr (congrArg TaskStruct.policy hparams :)
    (congrArg TaskStruct.rtPriority hparams :) (congrArg TaskStruct.normalPrio hparams :)

/-- No operation takes the parameters apart. -/
theorem Writes.wellSet {op : Op T} (hop : Allowed s op) (hwrites : Writes s op c)
    (h : ∀ p, (s.task p).WellSet) (p : T) : (c.task p).WellSet := by
  rcases hwrites with
    ⟨hsame, -⟩ | ⟨hsame, -⟩ | _ | ⟨-, -⟩ | ⟨-, hrt⟩ | _ | _ | _
  · exact hsame.toSameParams.wellSet h p
  · exact hsame.wellSet h p
  · exact Core.forall_setTask h (f := fun _ => forkedTask _) (wellSet_forkedTask (h _)) p
  · exact Core.forall_setTask h (wellSet_setscheduler _ hop.2) p
  · exact Core.forall_setTask h (wellSet_renicedTask (h _) hrt) p
  · exact Core.forall_setTask h ((h _).congr rfl rfl rfl) p
  · exact Core.forall_setTask h ((h _).congr rfl rfl rfl) p
  · exact Core.forall_setTask h ((h _).congr rfl rfl rfl) p

lemma wellSet_init (boot : Boot T) (p : T) : ((init K boot).task p).WellSet := by
  have hinit : (initTask K.toConfig).WellSet := ⟨.inl rfl, fun _ _ => rfl, fun hrt =>
    absurd (show rtPolicy schedNormal = true from hrt) (by decide)⟩
  rcases init_task (K := K) boot p with ⟨htask, -⟩ | htask | htask
  · rw [htask]
    exact hinit.congr rfl rfl rfl
  · rw [htask]
    exact ⟨.inr (.inl rfl),
      fun hrt => absurd (show rtPolicy schedFifo = false from hrt) (by decide), fun _ => rfl⟩
  · rw [htask]
    exact hinit

/-- **Policy and real-time priority go together in every reachable state.** -/
theorem Reachable.wellSet (hK : Laws K queued) {boot : Boot T} (h : Reachable K boot s) (p : T) :
    (s.task p).WellSet :=
  Run.forall_task hK (fun _ _ hop => hop) (wellSet_init boot)
    (fun hop hwrites _ => hwrites.wellSet hop) h p

/-- **When reset-on-fork resets**: exactly when the parent's policy is not WRR. -/
theorem reset_on_fork_iff (hK : Laws K queued) {boot : Boot T} (h : Reachable K boot s)
    (hreset : (s.task s.core.curr).schedResetOnFork = true) (p : T) :
    ((schedFork K s p).task p).IsReset ↔ (s.task s.core.curr).policy ≠ schedWrr := by
  rcases h.inv hK with ⟨wrr, hinv⟩
  have htask : (schedFork K s p).task p = forkedTask (s.task s.core.curr) := by
    have hcore := (quiet_schedFork (quietHooks_unit K) s p).core
    rw [core_forkedSys] at hcore
    rw [Sys.task, hcore, Core.fork_self]
  rw [htask]
  exact isReset_forkedTask_iff (h.wellSet hK _) (hinv.core.valid _).toInRange hreset

end

/-- The child of a FIFO task with the reset flag. -/
theorem reset_on_fork_fifo :
    ∃ s, runOps (fifoKernel smallConfig) Allowed (init (fifoKernel smallConfig) smallBoot)
        [.fork 2, .wakeUpNewTask 2, .schedule ⟨false, false, none⟩,
          .setscheduler 2 schedFifo 10 true] = some s ∧
      ((schedFork (fifoKernel smallConfig) s 3).task 3).IsReset := by
  have hrun : ∃ s, runOps (fifoKernel smallConfig) Allowed
      (init (fifoKernel smallConfig) smallBoot)
      [.fork 2, .wakeUpNewTask 2, .schedule ⟨false, false, none⟩,
        .setscheduler 2 schedFifo 10 true] = some s ∧
      (s.task s.core.curr).schedResetOnFork = true ∧ (s.task s.core.curr).policy ≠ schedWrr :=
    exists_of_any (by decide)
  rcases hrun with ⟨s, hs, hreset, hpolicy⟩
  exact ⟨s, hs,
    (reset_on_fork_iff (fifoKernel_laws smallConfig) (Run.runOps _ .init hs) hreset 3).mpr
      hpolicy⟩

/-- A WRR task with the reset flag forks: the child has the policy WRR and the real-time priority
of its parent. -/
theorem reset_on_fork_wrr :
    ∃ s, runOps (fifoKernel smallConfig) Allowed (init (fifoKernel smallConfig) smallBoot)
        [.fork 2, .wakeUpNewTask 2, .schedule ⟨false, false, none⟩,
          .setscheduler 2 schedWrr 10 true] = some s ∧
      (s.task s.core.curr).schedResetOnFork = true ∧
      ((schedFork (fifoKernel smallConfig) s 3).task 3).policy = schedWrr ∧
      ((schedFork (fifoKernel smallConfig) s 3).task 3).rtPriority = 10 ∧
      ¬((schedFork (fifoKernel smallConfig) s 3).task 3).IsReset := by
  have hrun : ∃ s, runOps (fifoKernel smallConfig) Allowed
      (init (fifoKernel smallConfig) smallBoot)
      [.fork 2, .wakeUpNewTask 2, .schedule ⟨false, false, none⟩,
        .setscheduler 2 schedWrr 10 true] = some s ∧
      (s.task s.core.curr).schedResetOnFork = true ∧
      ((schedFork (fifoKernel smallConfig) s 3).task 3).policy = schedWrr ∧
      ((schedFork (fifoKernel smallConfig) s 3).task 3).rtPriority = 10 :=
    exists_of_any (by decide)
  rcases hrun with ⟨s, hs, hreset, hpolicy, hprio⟩
  refine ⟨s, hs, hreset, hpolicy, hprio, fun hdefault => ?_⟩
  have hnormal := hdefault.policy
  rw [hpolicy] at hnormal
  exact absurd hnormal (by decide)

end Sched
