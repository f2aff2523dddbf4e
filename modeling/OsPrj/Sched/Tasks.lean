import OsPrj.Sched.Pick

/-!
# What the operations do to the tasks

The tasks without the queues: the fields that the paths of `core.c` rely on, and the exact effect
of each operation on them.

* `TaskStruct.Valid` — the ranges of the priorities, kept by `setscheduler`, `set_user_nice` and
  `sched_fork`.
* `CoreInv` — the tasks and `rq->curr`: the idle task stays apart and off the queue.
-/

namespace Sched

variable {T E : Type} [DecidableEq T]

/-! ## Priorities in range -/

/-- The ranges that the checks of `__sched_setscheduler` and `set_user_nice` establish. -/
structure TaskStruct.InRange (t : TaskStruct) : Prop where
  normalPrio : 0 ≤ t.normalPrio
  staticPrio : maxRtPrio ≤ t.staticPrio ∧ t.staticPrio < maxPrio
  rtPriority : 0 ≤ t.rtPriority ∧ t.rtPriority < maxRtPrio
  topPiWaiter : ∀ w ∈ t.topPiWaiter, 0 ≤ w

/-- A task of the RT class has a priority that is an index of its array. -/
structure TaskStruct.Valid (t : TaskStruct) : Prop extends TaskStruct.InRange t where
  prio : t.schedClass = .rt → 0 ≤ t.prio ∧ t.prio < maxRtPrio

/-- `on_rq` and the state of a task have no part in it. -/
lemma TaskStruct.Valid.setOnRq {t : TaskStruct} (h : t.Valid) (onRq : Bool) :
    ({ t with onRq := onRq } : TaskStruct).Valid :=
  ⟨⟨h.normalPrio, h.staticPrio, h.rtPriority, h.topPiWaiter⟩, h.prio⟩

lemma TaskStruct.Valid.setState {t : TaskStruct} (h : t.Valid) (state : ℕ) :
    ({ t with state := state } : TaskStruct).Valid :=
  ⟨⟨h.normalPrio, h.staticPrio, h.rtPriority, h.topPiWaiter⟩, h.prio⟩

/-! ### Fields that other code writes -/

section

variable (field : TaskField) (t : TaskStruct)

@[simp] lemma TaskField.write_onRq : (field.write t).onRq = t.onRq := by cases field <;> rfl

@[simp] lemma TaskField.write_schedClass : (field.write t).schedClass = t.schedClass := by
  cases field <;> rfl

@[simp] lemma TaskField.write_tgid : (field.write t).tgid = t.tgid := by cases field <;> rfl

lemma TaskStruct.Valid.writeField {t : TaskStruct} (h : t.Valid) : (field.write t).Valid := by
  cases field <;> exact ⟨⟨h.normalPrio, h.staticPrio, h.rtPriority, h.topPiWaiter⟩, h.prio⟩

end

namespace TaskStruct.InRange

variable {t : TaskStruct}

lemma normalPrio_nonneg (h : t.InRange) : 0 ≤ Sched.normalPrio t := by
  have hrt := h.rtPriority
  have hstatic := h.staticPrio
  simp only [maxRtPrio] at hrt hstatic
  rw [Sched.normalPrio, maxRtPrio]
  split_ifs <;> omega

lemma rtMutexGetprio_nonneg (h : t.InRange) : 0 ≤ rtMutexGetprio t := by
  rw [rtMutexGetprio]
  cases hw : t.topPiWaiter with
  | none => exact h.normalPrio
  | some w => exact le_min (h.topPiWaiter w hw) h.normalPrio

lemma setStaticPrio (h : t.InRange) {nice : ℤ} (hnice : -20 ≤ nice ∧ nice ≤ 19) :
    ({ t with staticPrio := niceToPrio nice } : TaskStruct).InRange := by
  refine ⟨h.normalPrio, ?_, h.rtPriority, h.topPiWaiter⟩
  simp only [niceToPrio, maxPrio, maxRtPrio]
  omega

end TaskStruct.InRange

/-! ### set_load_weight -/

section LoadWeight

variable (t : TaskStruct)

lemma setLoadWeight_eq : ∃ load, setLoadWeight t = { t with load := load } := by
  rw [setLoadWeight]
  split_ifs
  · exact ⟨_, rfl⟩
  · exact ⟨_, rfl⟩

@[simp] lemma setLoadWeight_schedClass : (setLoadWeight t).schedClass = t.schedClass := by
  rcases setLoadWeight_eq t with ⟨load, h⟩
  rw [h]

@[simp] lemma setLoadWeight_onRq : (setLoadWeight t).onRq = t.onRq := by
  rcases setLoadWeight_eq t with ⟨load, h⟩
  rw [h]

@[simp] lemma setLoadWeight_prio : (setLoadWeight t).prio = t.prio := by
  rcases setLoadWeight_eq t with ⟨load, h⟩
  rw [h]

@[simp] lemma setLoadWeight_policy : (setLoadWeight t).policy = t.policy := by
  rcases setLoadWeight_eq t with ⟨load, h⟩
  rw [h]

@[simp] lemma setLoadWeight_rtPriority : (setLoadWeight t).rtPriority = t.rtPriority := by
  rcases setLoadWeight_eq t with ⟨load, h⟩
  rw [h]

@[simp] lemma setLoadWeight_staticPrio : (setLoadWeight t).staticPrio = t.staticPrio := by
  rcases setLoadWeight_eq t with ⟨load, h⟩
  rw [h]

@[simp] lemma setLoadWeight_normalPrio : (setLoadWeight t).normalPrio = t.normalPrio := by
  rcases setLoadWeight_eq t with ⟨load, h⟩
  rw [h]

@[simp] lemma setLoadWeight_topPiWaiter : (setLoadWeight t).topPiWaiter = t.topPiWaiter := by
  rcases setLoadWeight_eq t with ⟨load, h⟩
  rw [h]

@[simp] lemma setLoadWeight_tgid : (setLoadWeight t).tgid = t.tgid := by
  rcases setLoadWeight_eq t with ⟨load, h⟩
  rw [h]

variable {t}

lemma TaskStruct.InRange.setLoadWeight (h : t.InRange) : (setLoadWeight t).InRange := by
  rcases setLoadWeight_eq t with ⟨load, heq⟩
  rw [heq]
  exact ⟨h.normalPrio, h.staticPrio, h.rtPriority, h.topPiWaiter⟩

end LoadWeight

/-! ### __setscheduler -/

section Setscheduler

variable (t : TaskStruct) (policy prio : ℤ)

@[simp] lemma setscheduler_onRq : (setscheduler t policy prio).onRq = t.onRq := by
  rw [setscheduler, setLoadWeight_onRq]

@[simp] lemma setscheduler_tgid : (setscheduler t policy prio).tgid = t.tgid := by
  rw [setscheduler, setLoadWeight_tgid]

@[simp] lemma setscheduler_topPiWaiter :
    (setscheduler t policy prio).topPiWaiter = t.topPiWaiter := by
  rw [setscheduler, setLoadWeight_topPiWaiter]

@[simp] lemma setscheduler_policy : (setscheduler t policy prio).policy = policy := by
  rw [setscheduler, setLoadWeight_policy]

@[simp] lemma setscheduler_rtPriority : (setscheduler t policy prio).rtPriority = prio := by
  rw [setscheduler, setLoadWeight_rtPriority]

lemma setscheduler_normalPrio : (setscheduler t policy prio).normalPrio =
    normalPrio { t with policy := policy, rtPriority := prio } := by
  rw [setscheduler, setLoadWeight_normalPrio]

lemma setscheduler_prio :
    (setscheduler t policy prio).prio = rtMutexGetprio (setscheduler t policy prio) := by
  rw [rtMutexGetprio, setscheduler_topPiWaiter, setscheduler_normalPrio, setscheduler,
    setLoadWeight_prio]
  rfl

lemma setscheduler_schedClass : (setscheduler t policy prio).schedClass =
    if policy = schedWrr then .wrr
    else if rtPrio (setscheduler t policy prio).prio then .rt else .fair := by
  rw [setscheduler, setLoadWeight_schedClass, setLoadWeight_prio]
  rfl

lemma setscheduler_schedClass_ne_idle : (setscheduler t policy prio).schedClass ≠ .idle := by
  rw [setscheduler_schedClass]
  split_ifs <;> simp

end Setscheduler

lemma valid_setscheduler {t : TaskStruct} (h : t.InRange) {policy prio : ℤ}
    (hprio : 0 ≤ prio ∧ prio < maxRtPrio) : (setscheduler t policy prio).Valid := by
  have hparam : ({ t with policy := policy, rtPriority := prio } : TaskStruct).InRange :=
    ⟨h.normalPrio, h.staticPrio, hprio, h.topPiWaiter⟩
  have hnormal : ({ t with
      policy := policy, rtPriority := prio
      normalPrio := normalPrio { t with policy := policy, rtPriority := prio } } :
        TaskStruct).InRange :=
    ⟨hparam.normalPrio_nonneg, h.staticPrio, hprio, h.topPiWaiter⟩
  have hnonneg := hnormal.rtMutexGetprio_nonneg
  rw [setscheduler]
  refine ⟨TaskStruct.InRange.setLoadWeight ⟨hnormal.normalPrio, h.staticPrio, hprio,
    h.topPiWaiter⟩, ?_⟩
  rw [setLoadWeight_schedClass, setLoadWeight_prio]
  intro hclass
  refine ⟨hnonneg, ?_⟩
  by_contra hge
  simp only [rtPrio, decide_eq_true_eq] at hclass
  rw [if_neg hge] at hclass
  split_ifs at hclass

/-! ### rt_mutex_setprio -/

/-- What `rt_mutex_setprio` writes. -/
def boostedTask (t : TaskStruct) (prio : ℤ) : TaskStruct :=
  { t with schedClass := if rtPrio prio then .rt else .fair, prio := prio }

lemma boostedTask_schedClass (t : TaskStruct) (prio : ℤ) :
    (boostedTask t prio).schedClass ≠ .idle ∧ (boostedTask t prio).schedClass ≠ .wrr := by
  rw [boostedTask]
  split_ifs <;> simp

lemma valid_boostedTask {t : TaskStruct} (h : t.InRange) {prio : ℤ} (hprio : 0 ≤ prio) :
    (boostedTask t prio).Valid := by
  refine ⟨⟨h.normalPrio, h.staticPrio, h.rtPriority, h.topPiWaiter⟩, fun hclass => ⟨hprio, ?_⟩⟩
  by_contra hge
  have hrt : rtPrio prio = false := decide_eq_false hge
  rw [boostedTask, hrt] at hclass
  exact absurd hclass (by simp)

/-! ### set_user_nice -/

/-- What `set_user_nice` writes, unless the policy is a real-time one. -/
def renicedTask (t : TaskStruct) (nice : ℤ) : TaskStruct :=
  effectivePrio (setLoadWeight { t with staticPrio := niceToPrio nice })

lemma effectivePrio_eq (t : TaskStruct) : effectivePrio t =
    { t with normalPrio := normalPrio t
             prio := if !rtPrio t.prio then normalPrio t else t.prio } := by
  rw [effectivePrio]
  split_ifs <;> rfl

section Reniced

variable (t : TaskStruct) (nice : ℤ)

@[simp] lemma renicedTask_onRq : (renicedTask t nice).onRq = t.onRq := by
  rw [renicedTask, effectivePrio_eq, setLoadWeight_onRq]

@[simp] lemma renicedTask_schedClass : (renicedTask t nice).schedClass = t.schedClass := by
  rw [renicedTask, effectivePrio_eq, setLoadWeight_schedClass]

@[simp] lemma renicedTask_tgid : (renicedTask t nice).tgid = t.tgid := by
  rw [renicedTask, effectivePrio_eq, setLoadWeight_tgid]

@[simp] lemma renicedTask_topPiWaiter : (renicedTask t nice).topPiWaiter = t.topPiWaiter := by
  rw [renicedTask, effectivePrio_eq, setLoadWeight_topPiWaiter]

@[simp] lemma renicedTask_policy : (renicedTask t nice).policy = t.policy := by
  rw [renicedTask, effectivePrio_eq, setLoadWeight_policy]

@[simp] lemma renicedTask_rtPriority : (renicedTask t nice).rtPriority = t.rtPriority := by
  rw [renicedTask, effectivePrio_eq, setLoadWeight_rtPriority]

variable {t}

lemma renicedTask_normalPrio (hrt : rtPolicy t.policy = false) :
    (renicedTask t nice).normalPrio = niceToPrio nice := by
  rw [renicedTask, effectivePrio_eq, normalPrio, setLoadWeight_policy, hrt,
    setLoadWeight_staticPrio]
  rfl

/-- A boosted task keeps its priority. -/
lemma renicedTask_prio (hrt : rtPolicy t.policy = false) :
    (renicedTask t nice).prio = if rtPrio t.prio then t.prio else niceToPrio nice := by
  rw [← renicedTask_normalPrio nice hrt, renicedTask, effectivePrio_eq, setLoadWeight_prio]
  cases rtPrio t.prio with
  | true => rfl
  | false => rfl

end Reniced

/-- What `set_user_nice` writes; a real-time task keeps its priorities. -/
def nicedTask (t : TaskStruct) (nice : ℤ) : TaskStruct :=
  if rtPolicy t.policy then { t with staticPrio := niceToPrio nice } else renicedTask t nice

@[simp] lemma nicedTask_onRq (t : TaskStruct) (nice : ℤ) : (nicedTask t nice).onRq = t.onRq := by
  rw [nicedTask]
  split_ifs
  · rfl
  · exact renicedTask_onRq t nice

@[simp] lemma nicedTask_schedClass (t : TaskStruct) (nice : ℤ) :
    (nicedTask t nice).schedClass = t.schedClass := by
  rw [nicedTask]
  split_ifs
  · rfl
  · exact renicedTask_schedClass t nice

lemma valid_renicedTask {t : TaskStruct} (h : t.Valid) {nice : ℤ}
    (hnice : -20 ≤ nice ∧ nice ≤ 19) : (renicedTask t nice).Valid := by
  have hrange := (h.setStaticPrio hnice).setLoadWeight
  rw [renicedTask, effectivePrio_eq]
  refine ⟨⟨hrange.normalPrio_nonneg, hrange.staticPrio, hrange.rtPriority,
    hrange.topPiWaiter⟩, ?_⟩
  rw [setLoadWeight_schedClass, setLoadWeight_prio]
  intro hclass
  have hprio := h.prio hclass
  have hrt : rtPrio t.prio = true := decide_eq_true hprio.2
  rw [hrt]
  exact hprio

/-! ### sched_fork -/

/-- The child of a task. -/
def forkedTask (parent : TaskStruct) : TaskStruct :=
  schedForkFields { parent with topPiWaiter := none, onRq := false } parent.normalPrio

/-- The part of `sched_fork` that `sched_reset_on_fork` asks for. -/
def resetTask (t : TaskStruct) : TaskStruct :=
  if t.schedResetOnFork then
    let t :=
      if rtPolicy t.policy then
        { t with policy := schedNormal, staticPrio := niceToPrio 0, rtPriority := 0 }
      else if prioToNice t.staticPrio < 0 then { t with staticPrio := niceToPrio 0 }
      else t
    let t := setLoadWeight { t with prio := t.staticPrio, normalPrio := t.staticPrio }
    { t with schedResetOnFork := false }
  else t

/-- The child before it is moved to the fair class for lack of a real-time priority. -/
def copiedTask (parent : TaskStruct) : TaskStruct :=
  resetTask { parent with
    topPiWaiter := none, onRq := false, state := taskRunning, prio := parent.normalPrio }

lemma forkedTask_eq (parent : TaskStruct) : forkedTask parent =
    { copiedTask parent with
      schedClass := if !rtPrio (copiedTask parent).prio then .fair
        else (copiedTask parent).schedClass } := by
  have hfields : forkedTask parent =
      if !rtPrio (copiedTask parent).prio then { copiedTask parent with schedClass := .fair }
      else copiedTask parent := rfl
  rw [hfields]
  split_ifs <;> rfl

lemma rtPolicy_schedWrr : rtPolicy schedWrr = false := by decide

lemma not_rtPrio {prio : ℤ} (h : maxRtPrio ≤ prio) : rtPrio prio = false :=
  decide_eq_false (not_lt.mpr h)

/-- A WRR task that has no real-time priority does not come to one by ticks. -/
lemma le_incPrioWrr {t : TaskStruct} (h : maxRtPrio ≤ t.prio) :
    maxRtPrio ≤ (incPrioWrr t).prio := by
  have hle : (100 : ℤ) ≤ t.prio := h
  show (100 : ℤ) ≤ if t.prio + 1 > 500 then 500 else t.prio + 1
  split_ifs <;> omega

lemma copiedTask_of_reset {t : TaskStruct} (h : t.InRange) (hreset : t.schedResetOnFork = true) :
    rtPrio (copiedTask t).prio = false ∧
      ((copiedTask t).policy = schedWrr ↔ t.policy = schedWrr) := by
  have hfair : rtPrio (niceToPrio 0) = false := by decide
  rw [copiedTask, resetTask, if_pos hreset]
  by_cases hrt : rtPolicy t.policy = true
  · rw [if_pos hrt]
    refine ⟨by simpa using hfair, ?_⟩
    have hne : t.policy ≠ schedWrr := by
      intro heq
      rw [heq, rtPolicy_schedWrr] at hrt
      exact Bool.noConfusion hrt
    exact iff_of_false (by simp [schedNormal, schedWrr]) hne
  · rw [if_neg hrt]
    split_ifs
    · exact ⟨by simpa using hfair, by simp⟩
    · exact ⟨by simpa using not_rtPrio h.staticPrio.1, by simp⟩

lemma copiedTask_of_not_reset {t : TaskStruct} (hreset : t.schedResetOnFork = false) :
    copiedTask t = { t with
      topPiWaiter := none, onRq := false, state := taskRunning, prio := t.normalPrio } := by
  rw [copiedTask, resetTask, if_neg (by simp [hreset])]

@[simp] lemma resetTask_onRq (t : TaskStruct) : (resetTask t).onRq = t.onRq := by
  rw [resetTask]
  split_ifs <;> simp

@[simp] lemma resetTask_schedClass (t : TaskStruct) : (resetTask t).schedClass = t.schedClass := by
  rw [resetTask]
  split_ifs <;> simp

lemma inRange_resetTask {t : TaskStruct} (h : t.InRange) : (resetTask t).InRange := by
  have hfill : ∀ t : TaskStruct, t.InRange → ({ setLoadWeight { t with
      prio := t.staticPrio, normalPrio := t.staticPrio } with
      schedResetOnFork := false } : TaskStruct).InRange := by
    intro t ht
    have hstatic := ht.staticPrio
    have hnonneg : 0 ≤ t.staticPrio := by
      simp only [maxRtPrio] at hstatic
      omega
    have hload : ({ t with prio := t.staticPrio, normalPrio := t.staticPrio } :
        TaskStruct).InRange := ⟨hnonneg, hstatic, ht.rtPriority, ht.topPiWaiter⟩
    exact ⟨hload.setLoadWeight.normalPrio, hload.setLoadWeight.staticPrio,
      hload.setLoadWeight.rtPriority, hload.setLoadWeight.topPiWaiter⟩
  have hnice := h.setStaticPrio (show (-20 : ℤ) ≤ 0 ∧ (0 : ℤ) ≤ 19 by omega)
  rw [resetTask]
  split_ifs
  · exact hfill _ ⟨hnice.normalPrio, hnice.staticPrio, ⟨le_rfl, by simp [maxRtPrio]⟩,
      hnice.topPiWaiter⟩
  · exact hfill _ hnice
  · exact hfill _ h
  · exact h

lemma resetTask_prio_nonneg {t : TaskStruct} (h : t.InRange) (hprio : 0 ≤ t.prio) :
    0 ≤ (resetTask t).prio := by
  have hstatic := h.staticPrio
  simp only [maxRtPrio] at hstatic
  rw [resetTask]
  split_ifs
  · simp [niceToPrio, maxRtPrio]
  · simp [niceToPrio, maxRtPrio]
  · show 0 ≤ (setLoadWeight _).prio
    rw [setLoadWeight_prio]
    show 0 ≤ t.staticPrio
    omega
  · exact hprio

@[simp] lemma forkedTask_onRq (parent : TaskStruct) : (forkedTask parent).onRq = false := by
  rw [forkedTask_eq, copiedTask, resetTask_onRq]

lemma valid_forkedTask {t : TaskStruct} (h : t.InRange) : (forkedTask t).Valid := by
  have hcopy : ({ t with
      topPiWaiter := none, onRq := false, state := taskRunning, prio := t.normalPrio } :
        TaskStruct).InRange := ⟨h.normalPrio, h.staticPrio, h.rtPriority, by simp⟩
  have hreset : (copiedTask t).InRange := inRange_resetTask hcopy
  have hnonneg : 0 ≤ (copiedTask t).prio := resetTask_prio_nonneg hcopy h.normalPrio
  rw [forkedTask_eq]
  refine ⟨⟨hreset.normalPrio, hreset.staticPrio, hreset.rtPriority, hreset.topPiWaiter⟩,
    fun hclass => ⟨hnonneg, ?_⟩⟩
  by_contra hge
  have hrt : rtPrio (copiedTask t).prio = false := decide_eq_false hge
  rw [hrt] at hclass
  exact absurd hclass (by simp)

/-- The child of a task that is not a real-time one is a fair task. -/
lemma forkedTask_schedClass_of_not_rt {t : TaskStruct} (hreset : t.schedResetOnFork = false)
    (hprio : maxRtPrio ≤ t.normalPrio) : (forkedTask t).schedClass = .fair := by
  have hcopy : (copiedTask t).prio = t.normalPrio := by
    rw [copiedTask, resetTask]
    simp [hreset]
  have hrt : rtPrio t.normalPrio = false := decide_eq_false (not_lt.mpr hprio)
  rw [forkedTask_eq, hcopy, hrt]
  rfl

lemma forkedTask_schedClass_ne_idle {t : TaskStruct} (ht : t.schedClass ≠ .idle) :
    (forkedTask t).schedClass ≠ .idle := by
  rw [forkedTask_eq, copiedTask, resetTask_schedClass]
  split_ifs
  · simp
  · exact ht

/-! ## The tasks of a run queue -/

/-- `init_idle` -/
def idleTask (cfg : Config) : TaskStruct := { initTask cfg with schedClass := .idle }

/-- What the callers of the operations keep: nobody touches the idle task, which is off the queue,
and only listed tasks are queued. -/
structure CoreInv (cfg : Config) (c : Core T) : Prop where
  idle : c.task c.idle = idleTask cfg
  idleClass : ∀ p, (c.task p).schedClass = .idle → p = c.idle
  idleNotListed : c.idle ∉ c.tasklist
  stopListed : ∀ p, c.stop = some p → p ∈ c.tasklist
  listed : ∀ p, (c.task p).onRq = true → p ∈ c.tasklist
  valid : ∀ p, (c.task p).Valid

/-- Write fields of the task structure of `p`. -/
def Core.setTask (c : Core T) (p : T) (f : TaskStruct → TaskStruct) : Core T :=
  { c with task := Function.update c.task p (f (c.task p)) }

lemma Core.setTask_self (c : Core T) (p : T) (f : TaskStruct → TaskStruct) :
    (c.setTask p f).task p = f (c.task p) := Function.update_self _ _ _

lemma Core.setTask_of_ne (c : Core T) {p q : T} (hq : q ≠ p) (f : TaskStruct → TaskStruct) :
    (c.setTask p f).task q = c.task q := Function.update_of_ne hq _ _

lemma Core.setTask_eq {c : Core T} {p : T} {f g : TaskStruct → TaskStruct}
    (h : f (c.task p) = g (c.task p)) : c.setTask p f = c.setTask p g := by
  rw [Core.setTask, Core.setTask, h]

/-- What every task satisfies, every task satisfies after one of them is written. -/
lemma Core.forall_setTask {P : TaskStruct → Prop} {c : Core T} (h : ∀ q, P (c.task q)) {p : T}
    {f : TaskStruct → TaskStruct} (hf : P (f (c.task p))) (q : T) : P ((c.setTask p f).task q) := by
  rcases eq_or_ne q p with rfl | hne
  · rw [Core.setTask_self]
    exact hf
  · rw [Core.setTask_of_ne _ hne]
    exact h q

lemma setTask_core (s : Sys T E) (p : T) (f : TaskStruct → TaskStruct) :
    (s.setTask p f).core = s.core.setTask p f := rfl

lemma Keeps.setTask_core {s s' : Sys T E} (h : Keeps s s') (p : T) (f : TaskStruct → TaskStruct) :
    (s'.setTask p f).core = s.core.setTask p f := by
  rw [Sched.setTask_core, h.core]

lemma setTask_task_self (s : Sys T E) (p : T) (f : TaskStruct → TaskStruct) :
    (s.setTask p f).task p = f (s.task p) := s.core.setTask_self p f

lemma setTask_task_of_ne (s : Sys T E) {p q : T} (hq : q ≠ p) (f : TaskStruct → TaskStruct) :
    (s.setTask p f).task q = s.task q := s.core.setTask_of_ne hq f

section

variable {cfg : Config} {c : Core T} {p : T}

omit [DecidableEq T] in
lemma CoreInv.ne_idle (h : CoreInv cfg c) (hp : p ∈ c.tasklist) : p ≠ c.idle := by
  rintro rfl
  exact h.idleNotListed hp

omit [DecidableEq T] in
lemma CoreInv.schedClass_ne_idle (h : CoreInv cfg c) (hp : p ∈ c.tasklist) :
    (c.task p).schedClass ≠ .idle :=
  fun hclass => h.ne_idle hp (h.idleClass p hclass)

/-- Writing a listed task keeps the invariant when the fields stay in range. -/
lemma CoreInv.setTask (h : CoreInv cfg c) (hp : p ∈ c.tasklist) {f : TaskStruct → TaskStruct}
    (hvalid : (f (c.task p)).Valid) (hclass : (f (c.task p)).schedClass ≠ .idle) :
    CoreInv cfg (c.setTask p f) where
  idle := (c.setTask_of_ne (h.ne_idle hp).symm f).trans h.idle
  idleClass := by
    intro q hq
    rcases eq_or_ne q p with rfl | hne
    · rw [c.setTask_self] at hq
      exact absurd hq hclass
    · rw [c.setTask_of_ne hne] at hq
      exact h.idleClass q hq
  idleNotListed := h.idleNotListed
  stopListed := h.stopListed
  listed := by
    intro q hq
    rcases eq_or_ne q p with rfl | hne
    · exact hp
    · rw [c.setTask_of_ne hne] at hq
      exact h.listed q hq
  valid := by
    intro q
    rcases eq_or_ne q p with rfl | hne
    · rwa [c.setTask_self]
    · rw [c.setTask_of_ne hne]
      exact h.valid q

/-- A new listed task: the child of the current one. -/
def Core.fork (c : Core T) (p : T) : Core T :=
  { c.setTask p fun _ => forkedTask (c.task c.curr) with tasklist := p :: c.tasklist }

lemma Core.fork_self (c : Core T) (p : T) : (c.fork p).task p = forkedTask (c.task c.curr) :=
  c.setTask_self p fun _ => forkedTask (c.task c.curr)

lemma Core.fork_of_ne (c : Core T) {p q : T} (hq : q ≠ p) : (c.fork p).task q = c.task q :=
  c.setTask_of_ne hq fun _ => forkedTask (c.task c.curr)

omit [DecidableEq T] in
/-- The child of the idle task is a fair task. -/
lemma CoreInv.forkedTask_ne_idle (h : CoreInv cfg c) :
    (forkedTask (c.task c.curr)).schedClass ≠ .idle := by
  by_cases hidle : (c.task c.curr).schedClass = .idle
  · have hnormal : maxRtPrio ≤ (idleTask cfg).normalPrio := by
      simp [idleTask, initTask, maxPrio, maxRtPrio]
    rw [h.idleClass _ hidle, h.idle, forkedTask_schedClass_of_not_rt rfl hnormal]
    simp
  · exact forkedTask_schedClass_ne_idle hidle

lemma CoreInv.fork (h : CoreInv cfg c) (hp : p ≠ c.idle) : CoreInv cfg (c.fork p) where
  idle := (c.fork_of_ne hp.symm).trans h.idle
  idleClass := by
    intro q hq
    rcases eq_or_ne q p with rfl | hne
    · rw [c.fork_self] at hq
      exact absurd hq h.forkedTask_ne_idle
    · rw [c.fork_of_ne hne] at hq
      exact h.idleClass q hq
  idleNotListed := by
    intro hmem
    rcases List.mem_cons.mp hmem with heq | hmem
    · exact hp heq.symm
    · exact h.idleNotListed hmem
  stopListed := fun q hq => List.mem_cons_of_mem p (h.stopListed q hq)
  listed := by
    intro q hq
    rcases eq_or_ne q p with rfl | hne
    · exact List.mem_cons_self
    · rw [c.fork_of_ne hne] at hq
      exact List.mem_cons_of_mem p (h.listed q hq)
  valid := by
    intro q
    rcases eq_or_ne q p with rfl | hne
    · rw [c.fork_self]
      exact valid_forkedTask (h.valid _).toInRange
    · rw [c.fork_of_ne hne]
      exact h.valid q

end

end Sched
