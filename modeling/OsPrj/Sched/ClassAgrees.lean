import OsPrj.Sched.Writes

/-!
# Class, policy and priority

The class of a task should follow from its policy and its effective priority.  Four functions
assign `sched_class`, and three of them can miss the WRR class.

* `agrees_forkedTask_iff`, `agrees_setscheduler_iff`, `agrees_boostedTask_iff` — when each of the
  assignments agrees with policy and priority.
* `allAgree_step_iff` — **the exact condition under which an operation keeps the agreement**.
* `class_agrees` — the agreement over whole runs.
-/

namespace Sched

variable {T E : Type} [DecidableEq T]

/-! ## Agreement, task by task -/

/-- The class that policy and effective priority call for. -/
def TaskStruct.wantedClass (t : TaskStruct) : SchedClass :=
  if rtPrio t.prio then .rt else if t.policy = schedWrr then .wrr else .fair

def TaskStruct.Agrees (t : TaskStruct) : Prop := t.schedClass = t.wantedClass

instance (t : TaskStruct) : Decidable t.Agrees := inferInstanceAs (Decidable (_ = _))

lemma TaskStruct.agrees_congr {t t' : TaskStruct} (hclass : t'.schedClass = t.schedClass)
    (hpolicy : t'.policy = t.policy) (hprio : rtPrio t'.prio = rtPrio t.prio) :
    t'.Agrees ↔ t.Agrees := by
  rw [Agrees, Agrees, wantedClass, wantedClass, hclass, hpolicy, hprio]

/-! ### sched_fork -/

/-- When `sched_fork` gives the child of `t` the right class: a child with a real-time priority
is right in the RT class, every other child is right unless its policy is WRR. -/
def ForkAgrees (t : TaskStruct) : Prop :=
  if t.schedResetOnFork = false ∧ t.normalPrio < maxRtPrio then t.schedClass = .rt
  else t.policy ≠ schedWrr

instance (t : TaskStruct) : Decidable (ForkAgrees t) :=
  inferInstanceAs (Decidable (if t.schedResetOnFork = false ∧ t.normalPrio < maxRtPrio
    then t.schedClass = .rt else t.policy ≠ schedWrr))

/-- **When the child of a task agrees.** -/
theorem agrees_forkedTask_iff {t : TaskStruct} (h : t.InRange) :
    (forkedTask t).Agrees ↔ ForkAgrees t := by
  rw [forkedTask_eq, TaskStruct.Agrees, TaskStruct.wantedClass, ForkAgrees]
  cases hreset : t.schedResetOnFork with
  | true =>
      rcases copiedTask_of_reset h hreset with ⟨hprio, hpolicy⟩
      by_cases hwrr : t.policy = schedWrr
      · simp [hprio, hpolicy, hwrr]
      · simp [hprio, hpolicy, hwrr]
  | false =>
      rw [copiedTask_of_not_reset hreset]
      by_cases hrt : t.normalPrio < maxRtPrio
      · simp [rtPrio, hrt]
      · by_cases hwrr : t.policy = schedWrr
        · simp [rtPrio, hrt, hwrr]
        · simp [rtPrio, hrt, hwrr]

/-! ### __setscheduler and rt_mutex_setprio -/

/-- **When `__setscheduler` agrees**: a task that is moved to the WRR policy must not be boosted. -/
theorem agrees_setscheduler_iff {t : TaskStruct} (h : t.InRange) (policy prio : ℤ) :
    (setscheduler t policy prio).Agrees ↔
      (policy = schedWrr → ∀ w ∈ t.topPiWaiter, maxRtPrio ≤ w) := by
  rw [TaskStruct.Agrees, TaskStruct.wantedClass, setscheduler_schedClass, setscheduler_policy]
  by_cases hwrr : policy = schedWrr
  · have hnormal : normalPrio { t with policy := policy, rtPriority := prio } = t.staticPrio := by
      rw [normalPrio, hwrr, rtPolicy_schedWrr]
      rfl
    have hstatic := h.staticPrio.1
    rw [if_pos hwrr, if_pos hwrr, setscheduler_prio, rtMutexGetprio, setscheduler_topPiWaiter,
      setscheduler_normalPrio, hnormal]
    cases hw : t.topPiWaiter with
    | none => simp [not_rtPrio hstatic]
    | some w => simp [hwrr, rtPrio, hstatic]
  · simp [hwrr]

/-- **When `rt_mutex_setprio` agrees**: it moves a task whose priority is not a real-time one to
the fair class. -/
theorem agrees_boostedTask_iff (t : TaskStruct) (prio : ℤ) :
    (boostedTask t prio).Agrees ↔ (t.policy = schedWrr → rtPrio prio = true) := by
  rw [TaskStruct.Agrees, TaskStruct.wantedClass, boostedTask]
  cases hrt : rtPrio prio with
  | true => simp
  | false => simp

/-! ### set_user_nice and the tick -/

lemma agrees_renicedTask {t : TaskStruct} (h : t.InRange) {nice : ℤ}
    (hnice : -20 ≤ nice ∧ nice ≤ 19) (hrt : rtPolicy t.policy = false) :
    (renicedTask t nice).Agrees ↔ t.Agrees := by
  have hstatic := (h.setStaticPrio hnice).staticPrio.1
  refine TaskStruct.agrees_congr (renicedTask_schedClass t nice) ?_ ?_
  · rw [renicedTask_policy]
  · rw [renicedTask_prio nice hrt]
    cases hprio : rtPrio t.prio with
    | true => exact hprio
    | false => exact not_rtPrio hstatic

lemma agrees_incPrioWrr {t : TaskStruct} (hclass : t.schedClass = .wrr) (h : t.Agrees) :
    (incPrioWrr t).Agrees := by
  have hrt : rtPrio t.prio = false := by
    by_contra hrt
    rw [TaskStruct.Agrees, hclass, TaskStruct.wantedClass,
      if_pos (Bool.eq_true_of_not_eq_false hrt)] at h
    exact SchedClass.noConfusion h
  have hprio : rtPrio (incPrioWrr t).prio = false :=
    not_rtPrio (le_incPrioWrr (not_lt.mp (of_decide_eq_false hrt)))
  have hcongr : (incPrioWrr t).Agrees ↔ t.Agrees :=
    TaskStruct.agrees_congr rfl rfl (hprio.trans hrt.symm)
  exact hcongr.mpr h

/-! ## Agreement of all tasks -/

/-- Every task that is neither the idle nor the stop task agrees. -/
def AllAgree (c : Core T) : Prop := ∀ p, p ≠ c.idle → c.stop ≠ some p → (c.task p).Agrees

/-- When an operation keeps the agreement. -/
def KeepsClass (s : Sys T E) : Op T → Prop
  | .fork _ => ForkAgrees (s.task s.core.curr)
  | .setscheduler p policy _ _ => policy = schedWrr →
      s.core.stop = some p ∨ (s.task p).policy = schedWrr ∨
        ∀ w ∈ (s.task p).topPiWaiter, maxRtPrio ≤ w
  | .rtMutexSetprio p prio => (s.task p).policy = schedWrr →
      p = s.core.idle ∨ s.core.stop = some p ∨ rtPrio prio = true
  | _ => True

instance (s : Sys T E) : (op : Op T) → Decidable (KeepsClass s op)
  | .fork _ => inferInstanceAs (Decidable (ForkAgrees (s.task s.core.curr)))
  | .setscheduler _ _ _ _ => inferInstanceAs (Decidable (_ = _ → _ ∨ _ ∨ ∀ w ∈ _, maxRtPrio ≤ w))
  | .rtMutexSetprio _ _ => inferInstanceAs (Decidable (_ = _ → _ ∨ _ ∨ _))
  | .wakeUpNewTask _ | .tryToWakeUp _ _ | .setCurrentState _ | .schedule _ | .schedYield _
  | .schedulerTick | .pickNextTask | .setUserNice _ _ | .setTopPiWaiter _ _ | .schedMoveTask _ _
  | .writeField _ _ | .schedRtPeriodTimer _ => .isTrue trivial

section

variable {cfg : Config} {K : Kernel T E} {queued : E → SchedClass → Finset T} {c c' : Core T}
  {s s' : Sys T E} {wrr : List T} {p : T}

omit [DecidableEq T] in
lemma SameParams.allAgree (h : SameParams c c') (hall : AllAgree c) : AllAgree c' := by
  intro p hidle hstop
  rw [h.idle] at hidle
  rw [h.stop] at hstop
  have hparams := h.task p
  refine (TaskStruct.agrees_congr ?_ ?_ ?_).mpr (hall p hidle hstop)
  · exact congrArg (fun t => t.schedClass) hparams
  · exact congrArg (fun t => t.policy) hparams
  · exact congrArg (fun t => rtPrio t.prio) hparams

/-- Writing one task keeps the agreement exactly when what is written agrees. -/
lemma allAgree_setTask_iff (hall : AllAgree c) (p : T) (f : TaskStruct → TaskStruct) :
    AllAgree (c.setTask p f) ↔ (p ≠ c.idle → c.stop ≠ some p → (f (c.task p)).Agrees) := by
  constructor
  · intro h hidle hstop
    have hp := h p hidle hstop
    rwa [Core.setTask_self] at hp
  · intro h q hidle hstop
    rcases eq_or_ne q p with rfl | hne
    · rw [Core.setTask_self]
      exact h hidle hstop
    · rw [Core.setTask_of_ne _ hne]
      exact hall q hidle hstop

/-! ### The operations that assign the class -/

lemma allAgree_fork_iff (h : CoreInv cfg c) (hall : AllAgree c) (hp : p ∉ c.tasklist)
    (hidle : p ≠ c.idle) : AllAgree (c.fork p) ↔ ForkAgrees (c.task c.curr) := by
  have hstop : c.stop ≠ some p := fun hstop => hp (h.stopListed p hstop)
  rw [← agrees_forkedTask_iff (h.valid c.curr).toInRange]
  refine (allAgree_setTask_iff hall p fun _ => forkedTask (c.task c.curr)).trans ?_
  exact ⟨fun hagrees => hagrees hidle hstop, fun hagrees _ _ => hagrees⟩

lemma allAgree_setscheduler_iff (h : CoreInv cfg s.core) (hall : AllAgree s.core)
    (hp : p ∈ s.core.tasklist) {policy prio : ℤ} {resetOnFork : Bool}
    (hstop : s.core.stop ≠ some p)
    (hsame : ¬(policy = (s.task p).policy ∧
      (rtPolicy policy = false ∨ prio = (s.task p).rtPriority))) :
    AllAgree (s.core.setTask p fun t =>
        setscheduler { t with schedResetOnFork := resetOnFork } policy prio) ↔
      KeepsClass s (.setscheduler p policy prio resetOnFork) := by
  rw [allAgree_setTask_iff hall, agrees_setscheduler_iff ((h.valid p).setResetOnFork resetOnFork)]
  constructor
  · intro hagrees hwrr
    exact .inr (.inr (hagrees (h.ne_idle hp) hstop hwrr))
  · intro hkeeps _ _ hwrr
    rcases hkeeps hwrr with hstop' | hpolicy | hwaiter
    · exact absurd hstop' hstop
    · refine absurd ⟨hwrr.trans hpolicy.symm, .inl ?_⟩ hsame
      rw [hwrr, rtPolicy_schedWrr]
    · exact hwaiter

lemma allAgree_rtMutexSetprio_iff (hall : AllAgree s.core) (hidle : p ≠ s.core.idle) (prio : ℤ) :
    AllAgree (s.core.setTask p fun t => boostedTask t prio) ↔
      KeepsClass s (.rtMutexSetprio p prio) := by
  rw [allAgree_setTask_iff hall, agrees_boostedTask_iff]
  constructor
  · intro hagrees hwrr
    by_cases hstop : s.core.stop = some p
    · exact .inr (.inl hstop)
    · exact .inr (.inr (hagrees hidle hstop hwrr))
  · intro hkeeps _ hstop hwrr
    exact ((hkeeps hwrr).resolve_left hidle).resolve_left hstop

omit [DecidableEq T] in
/-- An operation that may leave the parameters alone meets the condition. -/
lemma Op.Spares.keepsClass {op : Op T} (h : op.Spares s) : KeepsClass s op := by
  cases op with
  | fork p => exact h.elim
  | setscheduler p policy prio resetOnFork =>
      intro hwrr
      rcases h with hstop | hpolicy
      · exact .inl hstop
      · exact .inr (.inl (hpolicy.symm.trans hwrr))
  | rtMutexSetprio p prio => exact fun _ => .inl h
  | _ => trivial

omit [DecidableEq T] in
lemma Op.Moves.keepsClass {op : Op T} (h : op.Moves) : KeepsClass s op := by
  cases op with
  | wakeUpNewTask _ | tryToWakeUp _ _ | schedule _ | schedYield _ => trivial
  | _ => exact h.elim

/-- **The exact condition under which an operation keeps the agreement.** -/
theorem allAgree_step_iff (hK : Laws K queued) (h : Inv K queued s wrr) (hall : AllAgree s.core)
    {op : Op T} (hop : Allowed s op) (hstep : step K s op = .ok s') :
    AllAgree s'.core ↔ KeepsClass s op := by
  have hrange := fun p => (h.core.valid p).toInRange
  have hwrites := step_writes hK h hop hstep
  revert hwrites
  generalize s'.core = c
  rintro (⟨hsame, hspares⟩ | ⟨hsame, hmoves⟩ | _ | ⟨hstop, hsame⟩ | ⟨hnice, hrt⟩ | _ | hidle |
    hclass)
  · exact iff_of_true (hsame.toSameParams.allAgree hall) hspares.keepsClass
  · exact iff_of_true (hsame.allAgree hall) hmoves.keepsClass
  · exact allAgree_fork_iff h.core hall hop.1 hop.2
  · exact allAgree_setscheduler_iff h.core hall hop.1 hstop hsame
  · refine iff_of_true ((allAgree_setTask_iff hall _ _).mpr fun hidle hstop => ?_) trivial
    exact (agrees_renicedTask (hrange _) hnice hrt).mpr (hall _ hidle hstop)
  · refine iff_of_true ((allAgree_setTask_iff hall _ _).mpr fun hidle hstop => ?_) trivial
    exact (TaskStruct.agrees_congr rfl rfl rfl).mpr (hall _ hidle hstop)
  · exact allAgree_rtMutexSetprio_iff hall hidle _
  · refine iff_of_true ((allAgree_setTask_iff hall _ _).mpr fun hidle hstop => ?_) trivial
    exact agrees_incPrioWrr hclass (hall _ hidle hstop)

/-! ## Runs -/

lemma allAgree_init (boot : Boot T) : AllAgree (init K boot).core := by
  intro p hidle hstop
  have htask : (init K boot).core.task p = initTask K.toConfig :=
    (if_neg hidle).trans (if_neg hstop)
  rw [htask]
  rfl

lemma Run.allAgree (hK : Laws K queued) {boot : Boot T}
    (h : Run K (Sched.init K boot) (fun s op => Allowed s op ∧ KeepsClass s op) s) :
    AllAgree s.core := by
  induction h with
  | init => exact allAgree_init boot
  | step hrun hop hstep ih =>
      rcases Reachable.inv hK (hrun.mono fun _ _ => And.left) with ⟨wrr, hinv⟩
      exact (allAgree_step_iff hK hinv ih hop.1 hstep).mpr hop.2

/-- **Class, policy and priority agree as long as every operation meets its condition**, and not
longer. -/
theorem class_agrees (hK : Laws K queued) {boot : Boot T}
    (h : Run K (init K boot) (fun s op => Allowed s op ∧ KeepsClass s op) s) :
    AllAgree s.core ∧ ∀ op s', Allowed s op → step K s op = .ok s' →
      (AllAgree s'.core ↔ KeepsClass s op) := by
  rcases Reachable.inv hK (h.mono fun _ _ => And.left) with ⟨wrr, hinv⟩
  exact ⟨h.allAgree hK, fun op s' hop hstep =>
    allAgree_step_iff hK hinv (h.allAgree hK) hop hstep⟩

end

/-- A task of the WRR class forks: its child has the policy of the class and runs as a fair task.
Priority inheritance gives a WRR task a real-time priority and takes it back: the task stays a fair
one. -/
theorem class_disagrees :
    (∃ s, runOps (fifoKernel smallConfig) Allowed (init (fifoKernel smallConfig) smallBoot)
        [.fork 2, .wakeUpNewTask 2, .schedule ⟨false, false, none⟩,
          .setscheduler 2 schedWrr 0 false, .fork 3] = some s ∧ ¬AllAgree s.core) ∧
      ∃ s, runOps (fifoKernel smallConfig) Allowed (init (fifoKernel smallConfig) smallBoot)
        [.fork 2, .wakeUpNewTask 2, .setscheduler 2 schedWrr 0 false, .setTopPiWaiter 2 (some 50),
          .rtMutexSetprio 2 50, .setTopPiWaiter 2 none, .rtMutexSetprio 2 120] = some s ∧
        ¬AllAgree s.core := by
  have hbad : ∀ (o : Option (Sys ℕ (SchedClass → List ℕ))) (p : ℕ),
      o.any (fun s => p ≠ s.core.idle ∧ s.core.stop ≠ some p ∧ ¬(s.core.task p).Agrees) = true →
        ∃ s, o = some s ∧ ¬AllAgree s.core := by
    intro o p hany
    rcases exists_of_any hany with ⟨s, hs, hidle, hstop, hdiffers⟩
    exact ⟨s, hs, fun hall => hdiffers (hall p hidle hstop)⟩
  exact ⟨hbad _ 3 (by decide), hbad _ 2 (by decide)⟩

/-- A boosted task and its child, and a task that moves to the WRR class and back. -/
theorem class_agrees_two :
    ∃ s, runOps (fifoKernel smallConfig) (fun s op => Allowed s op ∧ KeepsClass s op)
        (init (fifoKernel smallConfig) smallBoot)
        [.fork 2, .wakeUpNewTask 2, .schedule ⟨false, false, none⟩, .rtMutexSetprio 2 50, .fork 3,
          .rtMutexSetprio 2 120, .setscheduler 3 schedWrr 0 false, .setUserNice 3 5,
          .wakeUpNewTask 3, .schedulerTick] = some s ∧
      AllAgree s.core ∧ ∀ op s', Allowed s op → step (fifoKernel smallConfig) s op = .ok s' →
        (AllAgree s'.core ↔ KeepsClass s op) := by
  refine Option.isSome_iff_exists.mp ?_ |>.imp fun s hs => ⟨hs, ?_⟩
  · decide
  · exact class_agrees (fifoKernel_laws smallConfig) (Run.runOps _ .init hs)

end Sched
