import OsPrj.Sched.Params

/-!
# __sched_setscheduler

The whole function: its checks, the two locks, and the jump back to `recheck` when `p->policy` has
changed while the call waited for the locks.

* `setschedulerChecks_ok_iff` — what the checks let through.
* `schedSetschedulerLoop_spec` — **a call returns with as many unlocks as locks**, and has written
  nothing unless it comes to the end.
* `failed_setscheduler`, `setscheduler_effect_iff` — what a failed call and a successful one leave
  behind.
-/

namespace Sched

variable {T E : Type} [DecidableEq T]

/-! ## The checks -/

/-- The policy that a call asks for: a negative one stands for the current one. -/
def requestedPolicy (t : TaskStruct) (policy : ℤ) : ℤ :=
  if policy < 0 then t.policy else policy - resetOnForkBit policy

/-- The value for `sched_reset_on_fork` that goes with it. -/
def requestedReset (t : TaskStruct) (policy : ℤ) : Bool :=
  if policy < 0 then t.schedResetOnFork else resetOnForkBit policy != 0

def KnownPolicy (policy : ℤ) : Prop :=
  policy = schedNormal ∨ policy = schedFifo ∨ policy = schedRr ∨ policy = schedBatch ∨
    policy = schedIdle ∨ policy = schedWrr

/-- What a caller without `CAP_SYS_NICE` may ask for. -/
@[mk_iff] structure Permitted (t : TaskStruct) (c : Caller) (policy prio : ℤ) (reset : Bool) :
    Prop where
  rtLimit : rtPolicy policy = true → policy ≠ t.policy → t.rlimitRtprio ≠ 0
  rtPrio : rtPolicy policy = true → t.rtPriority < prio → prio ≤ t.rlimitRtprio
  fromIdle : t.policy = schedIdle → policy ≠ schedIdle →
    canNice t c (prioToNice t.staticPrio) = true
  owner : c.sameOwner = true
  resetOnFork : t.schedResetOnFork = true → reset = true

/-- When a call passes the checks. -/
@[mk_iff] structure Passes (t : TaskStruct) (c : Caller) (policy prio : ℤ) : Prop where
  known : 0 ≤ policy → KnownPolicy (requestedPolicy t policy)
  range : 0 ≤ prio ∧ prio ≤ 99
  rt : rtPolicy (requestedPolicy t policy) = decide (prio ≠ 0) ∨
    requestedPolicy t policy = schedWrr
  permitted : c.user = true → c.capSysNice = false →
    Permitted t c (requestedPolicy t policy) prio (requestedReset t policy)
  security : c.user = true → c.security = 0

lemma outOfRange_iff (t : TaskStruct) (prio : ℤ) :
    (prio < 0 ∨ (t.hasMm ∧ maxUserRtPrio - 1 < prio) ∨ (!t.hasMm ∧ maxRtPrio - 1 < prio))
      ↔ ¬(0 ≤ prio ∧ prio ≤ 99) := by
  simp only [maxUserRtPrio, maxRtPrio]
  cases t.hasMm with
  | true =>
      simp
      omega
  | false =>
      simp
      omega

lemma throw_bind {α β : Type} (e : ℤ) (k : α → Except ℤ β) :
    ((throw e : Except ℤ α) >>= k) = .error e := rfl

lemma ite_error_eq_ok {α : Type} {c : Prop} [Decidable c] {e : ℤ} {x : Except ℤ α} {v : α} :
    (if c then .error e else x) = .ok v ↔ ¬c ∧ x = .ok v := by
  split_ifs with h <;> simp [h]

/-- **What the checks let through.** -/
theorem setschedulerChecks_ok_iff (t : TaskStruct) (c : Caller) (policy prio : ℤ) (v : ℤ × Bool) :
    setschedulerChecks t c policy prio = .ok v ↔
      Passes t c policy prio ∧ (requestedPolicy t policy, requestedReset t policy) = v := by
  have hpure : ∀ x : ℤ × Bool, (pure x : Except ℤ _) = .ok v ↔ x = v := by
    intro x
    exact Except.ok.injEq x v ▸ Iff.rfl
  rw [setschedulerChecks, passes_iff, permitted_iff]
  simp only [outOfRange_iff, throw_bind, pure_bind]
  by_cases hneg : policy < 0
  on_goal 1 => simp only [requestedPolicy, requestedReset, if_pos hneg, ite_error_eq_ok]
  on_goal 2 =>
    simp only [requestedPolicy, requestedReset, if_neg hneg, ite_error_eq_ok, KnownPolicy]
  all_goals
    by_cases huser : c.user = true ∧ (!c.capSysNice) = true
    · rw [if_pos huser]
      -- the two forms of the permission checks, for real-time policies and for others
      split
      · simp only [ite_error_eq_ok, hpure]
        grind
      · simp only [ite_error_eq_ok, hpure]
        grind
    · rw [if_neg huser]
      simp only [ite_error_eq_ok, hpure]
      grind

lemma ite_ne_error_zero {α : Type} {c : Prop} [Decidable c] {x y : Except ℤ α}
    (hx : c → x ≠ .error 0) (hy : y ≠ .error 0) : (if c then x else y) ≠ .error 0 := by
  split_ifs with h
  · exact hx h
  · exact hy

/-- A call that fails a check returns an error. -/
lemma setschedulerChecks_ne_zero (t : TaskStruct) (c : Caller) (policy prio : ℤ) :
    setschedulerChecks t c policy prio ≠ .error 0 := by
  rw [setschedulerChecks]
  simp only [throw_bind, pure_bind]
  repeat' refine ite_ne_error_zero (fun h => ?_) ?_
  all_goals simp_all [einval, eperm, pure, Except.pure]

/-! ## The whole function -/

/-- The scheduler, and how often the call has taken `p->pi_lock` and `rq->lock` more often than
released them. -/
structure Held (T E : Type) where
  sys : Sys T E
  piLock : ℤ
  rqLock : ℤ

/-- `task_rq_lock`; before it has both locks, `others` have run. -/
def taskRqLock (others : Sys T E → Sys T E) (h : Held T E) : Held T E :=
  { sys := others h.sys, piLock := h.piLock + 1, rqLock := h.rqLock + 1 }

/-- `__task_rq_unlock` -/
def rqUnlock (h : Held T E) : Held T E := { h with rqLock := h.rqLock - 1 }

/-- `raw_spin_unlock_irqrestore(&p->pi_lock, flags)` -/
def piUnlock (h : Held T E) : Held T E := { h with piLock := h.piLock - 1 }

/-- `task_rq_unlock` -/
def taskRqUnlock (h : Held T E) : Held T E := piUnlock (rqUnlock h)

/-- What the task groups, by their paths, are with `CONFIG_RT_GROUP_SCHED`: the runtime of their
`rt_bandwidth`, and the answer of `task_group_is_autogroup`. -/
structure RtGroups where
  rtRuntime : String → BitVec 64
  isAutogroup : String → Bool

/-- What a pass through the function meets: the rights of the caller, the answer of
`security_task_setscheduler`, what others do before the call has the locks, and the task groups. -/
structure Round (T E : Type) where
  capSysNice : Bool
  sameOwner : Bool
  security : ℤ
  others : Sys T E → Sys T E
  groups : RtGroups

def Round.caller (r : Round T E) (user : Bool) : Caller :=
  { user := user, capSysNice := r.capSysNice, sameOwner := r.sameOwner, security := r.security }

/-- How a pass ends: with a return value, or at `goto recheck`. -/
inductive Pass (T E : Type) where
  | done (ret : ℤ) (h : Held T E)
  | recheck (h : Held T E)

section

variable (K : Kernel T E) (rtGroupSched : Bool)

/-- Whether the task is one of a group that has no runtime for real-time tasks. -/
def lacksRtRuntime (groups : RtGroups) (t : TaskStruct) : Prop :=
  groups.rtRuntime t.schedTaskGroup = 0 ∧ groups.isAutogroup t.schedTaskGroup = false

instance (groups : RtGroups) (t : TaskStruct) : Decidable (lacksRtRuntime groups t) :=
  inferInstanceAs (Decidable (_ ∧ _))

/-- From `recheck` to a return or the next `goto recheck`.  The variable `oldpolicy` is `-1` when a
pass starts; `rtGroupSched` is `CONFIG_RT_GROUP_SCHED`. -/
def setschedulerPass (user : Bool) (p : T) (prio : ℤ) (r : Round T E) (h : Held T E)
    (policy : ℤ) : Pass T E :=
  match setschedulerChecks (h.sys.task p) (r.caller user) policy prio with
  | .error e => .done e h
  | .ok (newPolicy, resetOnFork) =>
      let oldpolicy := if policy < 0 then newPolicy else -1
      let h := taskRqLock r.others h
      if h.sys.core.stop = some p then .done einval (taskRqUnlock h)
      else if newPolicy = (h.sys.task p).policy ∧
          (rtPolicy newPolicy = false ∨ prio = (h.sys.task p).rtPriority) then
        .done 0 (piUnlock (rqUnlock h))
      else if rtGroupSched ∧ user ∧ K.rtBandwidthEnabled ∧ rtPolicy newPolicy ∧
          lacksRtRuntime r.groups (h.sys.task p) then
        .done eperm (taskRqUnlock h)
      else if oldpolicy ≠ -1 ∧ oldpolicy ≠ (h.sys.task p).policy then .recheck (taskRqUnlock h)
      else
        .done 0 (taskRqUnlock
          { h with sys := setschedulerChange K h.sys p newPolicy prio resetOnFork })

/-- `__sched_setscheduler(p, policy, param, user)`, for as many passes as there are rounds.
`rt_mutex_adjust_pi`, after the last unlock, is not in the repository. -/
def schedSetschedulerLoop (user : Bool) (p : T) (prio : ℤ) :
    List (Round T E) → Held T E → ℤ → Option (ℤ × Held T E)
  | [], _, _ => none
  | r :: rounds, h, policy =>
      match setschedulerPass K rtGroupSched user p prio r h policy with
      | .done ret h => some (ret, h)
      | .recheck h => schedSetschedulerLoop user p prio rounds h (-1)

end

/-- The state after what others do in some rounds. -/
def afterOthers (rounds : List (Round T E)) (s : Sys T E) : Sys T E :=
  rounds.foldl (fun s r => r.others s) s

/-! ## One pass -/

section

variable {K : Kernel T E} {rtGroupSched : Bool} {p : T} {policy prio : ℤ}

omit [DecidableEq T] in
/-- Both locks are released as often as taken. -/
@[simp] lemma taskRqUnlock_taskRqLock (others : Sys T E → Sys T E) (h : Held T E) :
    taskRqUnlock (taskRqLock others h) = { h with sys := others h.sys } := by
  simp [taskRqUnlock, taskRqLock, rqUnlock, piUnlock]

lemma requestedPolicy_of_neg (t : TaskStruct) (hneg : policy < 0) :
    requestedPolicy t policy = t.policy := if_pos hneg

lemma requestedPolicy_of_nonneg (t t' : TaskStruct) (hnonneg : 0 ≤ policy) :
    requestedPolicy t policy = requestedPolicy t' policy := by
  rw [requestedPolicy, requestedPolicy, if_neg (not_lt.mpr hnonneg), if_neg (not_lt.mpr hnonneg)]

/-- How a call returns whose last pass started in the state `s₀`, and which had the locks, or failed
before it took them, in the state `s`.  The policy it goes on with is the requested one; the
exception is a task whose policy is the `-1` that stands for no `oldpolicy`. -/
inductive Returns (K : Kernel T E) (p : T) (policy prio : ℤ) (s₀ s : Sys T E) :
    ℤ → Sys T E → Prop where
  | failed {ret : ℤ} : ret ≠ 0 → Returns K p policy prio s₀ s ret s
  | unchanged :
      (rtPolicy (s.task p).policy = decide (prio ≠ 0) ∨ (s.task p).policy = schedWrr) →
      requestedPolicy (s.task p) policy = (s.task p).policy →
      (rtPolicy (s.task p).policy = false ∨ prio = (s.task p).rtPriority) →
      Returns K p policy prio s₀ s 0 s
  | changed {newPolicy : ℤ} {resetOnFork : Bool} :
      newPolicy = requestedPolicy (s.task p) policy ∨ policy < 0 ∧ (s₀.task p).policy = -1 →
      ¬(newPolicy = (s.task p).policy ∧
        (rtPolicy newPolicy = false ∨ prio = (s.task p).rtPriority)) →
      Returns K p policy prio s₀ s 0 (setschedulerChange K s p newPolicy prio resetOnFork)

/-- Where a pass ends.  It has released what it has taken; it comes to `goto recheck` only for a
negative policy. -/
inductive PassEnds (K : Kernel T E) (p : T) (policy prio : ℤ) (others : Sys T E → Sys T E)
    (h : Held T E) : Pass T E → Prop where
  | refused {ret : ℤ} : ret ≠ 0 → PassEnds K p policy prio others h (.done ret h)
  | returns {ret : ℤ} {s : Sys T E} : Returns K p policy prio h.sys (others h.sys) ret s →
      PassEnds K p policy prio others h (.done ret { h with sys := s })
  | recheck : policy < 0 →
      PassEnds K p policy prio others h (.recheck { h with sys := others h.sys })

lemma PassEnds.ite {others : Sys T E → Sys T E} {h : Held T E} {c : Prop} [Decidable c]
    {a b : Pass T E} (ha : c → PassEnds K p policy prio others h a)
    (hb : ¬c → PassEnds K p policy prio others h b) :
    PassEnds K p policy prio others h (if c then a else b) := by
  split_ifs with hc
  · exact ha hc
  · exact hb hc

/-- **What one pass does.** -/
theorem setschedulerPass_ends (user : Bool) (r : Round T E) (h : Held T E) :
    PassEnds K p policy prio r.others h
      (setschedulerPass K rtGroupSched user p prio r h policy) := by
  rw [setschedulerPass]
  cases hchecks : setschedulerChecks (h.sys.task p) (r.caller user) policy prio with
  | error e =>
      refine .refused ?_
      rintro rfl
      exact setschedulerChecks_ne_zero _ _ _ _ hchecks
  | ok v =>
      rcases (setschedulerChecks_ok_iff _ _ _ _ v).mp hchecks with ⟨hpasses, rfl⟩
      have hrt := hpasses.rt
      generalize hnew : requestedPolicy (h.sys.task p) policy = newPolicy at hrt ⊢
      -- a nonnegative policy names the same policy whatever the others do
      have hnonneg : 0 ≤ policy →
          newPolicy = requestedPolicy ((r.others h.sys).task p) policy := fun hnonneg =>
        hnew.symm.trans (requestedPolicy_of_nonneg _ _ hnonneg)
      refine .ite (fun _ => ?_) fun _ => .ite (fun hsame => ?_) fun hdiff => .ite (fun _ => ?_)
        fun _ => .ite (fun hold => ?_) fun hold => ?_
      · rw [taskRqUnlock_taskRqLock]
        exact .returns (.failed (by decide))
      · rw [show piUnlock (rqUnlock _) = _ from taskRqUnlock_taskRqLock r.others h]
        rcases hsame with ⟨hpolicy, hprio⟩
        rw [hpolicy] at hrt hprio hnonneg
        refine .returns (.unchanged hrt ?_ hprio)
        by_cases hneg : policy < 0
        · exact requestedPolicy_of_neg _ hneg
        · exact (hnonneg (not_lt.mp hneg)).symm
      · rw [taskRqUnlock_taskRqLock]
        exact .returns (.failed (by decide))
      · rw [taskRqUnlock_taskRqLock]
        refine .recheck ?_
        by_contra hneg
        rw [if_neg hneg] at hold
        exact hold.1 rfl
      · have hunlock : taskRqUnlock { taskRqLock r.others h with
            sys := setschedulerChange K (taskRqLock r.others h).sys p newPolicy prio
              (requestedReset (h.sys.task p) policy) } = { h with
            sys := setschedulerChange K (r.others h.sys) p newPolicy prio
              (requestedReset (h.sys.task p) policy) } :=
          taskRqUnlock_taskRqLock (fun s => setschedulerChange K (r.others s) p newPolicy prio _) h
        rw [hunlock]
        refine .returns (.changed ?_ hdiff)
        by_cases hneg : policy < 0
        · rw [if_pos hneg, not_and_or, not_not, not_not] at hold
          rw [requestedPolicy_of_neg _ hneg] at hnew ⊢
          exact hold.symm.imp_right fun hminus => ⟨hneg, hnew.trans hminus⟩
        · exact .inl (hnonneg (not_lt.mp hneg))

/-! ## The whole call -/

lemma Returns.of_recheck (hneg : policy < 0) {s₀ s s' : Sys T E} {ret : ℤ}
    (h : Returns K p (-1) prio s₀ s ret s') : Returns K p policy prio s₀ s ret s' := by
  have hrequest : requestedPolicy (s.task p) (-1) = requestedPolicy (s.task p) policy := by
    rw [requestedPolicy_of_neg _ hneg, requestedPolicy_of_neg _ (by decide)]
  cases h with
  | failed hret => exact .failed hret
  | unchanged hrt hpolicy hprio => exact .unchanged hrt (hrequest ▸ hpolicy) hprio
  | changed hpolicy hnew =>
      rw [hrequest] at hpolicy
      exact .changed (hpolicy.imp_right fun hminus => ⟨hneg, hminus.2⟩) hnew

/-- **A call returns with as many unlocks as locks**; but for a change at its end, the state is what
others have made of it. -/
theorem schedSetschedulerLoop_spec (user : Bool) : ∀ (rounds : List (Round T E)) (policy : ℤ)
    (h h' : Held T E) (ret : ℤ),
    schedSetschedulerLoop K rtGroupSched user p prio rounds h policy = some (ret, h') →
      h'.piLock = h.piLock ∧ h'.rqLock = h.rqLock ∧ ∃ n ≤ rounds.length, ∃ m ≤ n,
        Returns K p policy prio (afterOthers (rounds.take m) h.sys)
          (afterOthers (rounds.take n) h.sys) ret h'.sys
  | [], policy, h, h', ret, hloop => absurd hloop (by simp [schedSetschedulerLoop])
  | r :: rounds, policy, h, h', ret, hloop => by
      have hends : PassEnds K p policy prio r.others h
          (setschedulerPass K rtGroupSched user p prio r h policy) :=
        setschedulerPass_ends user r h
      rw [schedSetschedulerLoop] at hloop
      generalize setschedulerPass K rtGroupSched user p prio r h policy = pass at hends hloop
      cases hends with
      | refused hret =>
          obtain ⟨rfl, rfl⟩ : _ ∧ h = h' := by simpa using hloop
          exact ⟨rfl, rfl, 0, by simp, 0, by simp, .failed hret⟩
      | returns hreturns =>
          obtain ⟨rfl, rfl⟩ : _ ∧ _ = h' := by simpa using hloop
          exact ⟨rfl, rfl, 1, by simp, 0, by simp, hreturns⟩
      | recheck hneg =>
          rcases schedSetschedulerLoop_spec user rounds (-1) _ h' ret hloop with
            ⟨hpi, hrq, n, hn, m, hm, hreturns⟩
          exact ⟨hpi, hrq, n + 1, by simpa using hn, m + 1, by simpa using hm,
            hreturns.of_recheck hneg⟩

end

/-- **Without others, the call is `schedSetscheduler`**, in a build without
`CONFIG_RT_GROUP_SCHED`. -/
theorem schedSetschedulerLoop_alone (K : Kernel T E) (user : Bool) (p : T) (policy prio : ℤ)
    {r : Round T E} (halone : r.others = id) (s : Sys T E) :
    schedSetschedulerLoop K false user p prio [r] ⟨s, 0, 0⟩ policy =
      some ((schedSetscheduler K s p policy prio (r.caller user)).1,
        ⟨(schedSetscheduler K s p policy prio (r.caller user)).2, 0, 0⟩) := by
  rw [schedSetschedulerLoop, setschedulerPass, schedSetscheduler]
  cases hchecks : setschedulerChecks (s.task p) (r.caller user) policy prio with
  | error e => rfl
  | ok v =>
      rcases (setschedulerChecks_ok_iff _ _ _ _ v).mp hchecks with ⟨-, rfl⟩
      -- the policy read without the locks is still that of the task
      have hsame : ¬((if policy < 0 then requestedPolicy (s.task p) policy else -1) ≠ -1 ∧
          (if policy < 0 then requestedPolicy (s.task p) policy else -1) ≠ (s.task p).policy) := by
        rintro ⟨hold, hne⟩
        split_ifs at hold hne with hneg
        · exact hne (requestedPolicy_of_neg _ hneg)
        · exact hold rfl
      simp only [halone, taskRqLock, id_eq, setschedulerLocked, if_neg hsame, Bool.false_eq_true,
        false_and, if_false]
      split_ifs
      · rfl
      · rfl
      · rfl

/-! ## Failed calls -/

/-- **A failed call changes nothing**: it leaves what others have made of the scheduler, and holds
no lock. -/
theorem failed_setscheduler (K : Kernel T E) (rtGroupSched user : Bool) (p : T) (policy prio : ℤ)
    (rounds : List (Round T E)) (s : Sys T E) {ret : ℤ} {h : Held T E}
    (hloop : schedSetschedulerLoop K rtGroupSched user p prio rounds ⟨s, 0, 0⟩ policy =
      some (ret, h))
    (hret : ret ≠ 0) :
    h.piLock = 0 ∧ h.rqLock = 0 ∧ ∃ n ≤ rounds.length, h.sys = afterOthers (rounds.take n) s := by
  rcases schedSetschedulerLoop_spec user rounds policy _ h ret hloop with
    ⟨hpi, hrq, n, hn, m, -, hreturns⟩
  refine ⟨hpi, hrq, n, hn, ?_⟩
  generalize h.sys = s' at hreturns ⊢
  cases hreturns with
  | failed _ => rfl
  | unchanged _ _ _ => exact absurd rfl hret
  | changed _ _ => exact absurd rfl hret

/-- Groups that all have the same runtime. -/
def uniformRtGroups (rtRuntime : BitVec 64) : RtGroups := ⟨fun _ => rtRuntime, fun _ => false⟩

/-- A task is made FIFO while `sched_setparam` waits for its locks; at the second pass the priority
`0` is invalid. -/
theorem failed_setscheduler_recheck :
    ∃ h, schedSetschedulerLoop (fifoKernel smallConfig) true true 2 0
        [⟨false, true, 0, fun s => s.setTask 2 fun t => setscheduler t schedFifo 10,
          uniformRtGroups 950000000⟩, ⟨false, true, 0, id, uniformRtGroups 950000000⟩]
        ⟨init (fifoKernel smallConfig) smallBoot, 0, 0⟩ (-1) = some (einval, h) ∧
      h.piLock = 0 ∧ h.rqLock = 0 := by
  have hrun : ∃ v, schedSetschedulerLoop (fifoKernel smallConfig) true true 2 0
      [⟨false, true, 0, fun s => s.setTask 2 fun t => setscheduler t schedFifo 10,
        uniformRtGroups 950000000⟩, ⟨false, true, 0, id, uniformRtGroups 950000000⟩]
      ⟨init (fifoKernel smallConfig) smallBoot, 0, 0⟩ (-1) = some v ∧ v.1 = einval :=
    exists_of_any (by decide)
  rcases hrun with ⟨⟨_, h⟩, hloop, rfl⟩
  have hfailed := failed_setscheduler _ true true 2 (-1) 0 _ _ hloop (by decide)
  exact ⟨h, hloop, hfailed.1, hfailed.2.1⟩

/-! ## Successful calls -/

section

variable {K : Kernel T E} {queued : E → SchedClass → Finset T} {rtGroupSched : Bool} {p : T}
  {policy prio : ℤ} {rounds : List (Round T E)} {s : Sys T E}

lemma core_setschedulerChange (s : Sys T E) (p : T) (policy prio : ℤ) (resetOnFork : Bool) :
    (setschedulerChange K s p policy prio resetOnFork).core = s.core.setTask p fun t =>
      setscheduler { t with schedResetOnFork := resetOnFork } policy prio := by
  have hcheck : Keeps (changeTask K s p (fun t =>
      setscheduler { t with schedResetOnFork := resetOnFork } policy prio) false) _ :=
    (quiet_checkClassChanged (quietHooks_unit K) _ p (s.task p).schedClass
      (s.task p).prio).toKeeps
  rw [setschedulerChange_eq, hcheck.core, core_changeTask]

lemma setschedulerChange_params (s : Sys T E) (p : T) (policy prio : ℤ) (resetOnFork : Bool) :
    ((setschedulerChange K s p policy prio resetOnFork).task p).policy = policy ∧
      ((setschedulerChange K s p policy prio resetOnFork).task p).rtPriority = prio := by
  have htask : (setschedulerChange K s p policy prio resetOnFork).task p =
      setscheduler { s.task p with schedResetOnFork := resetOnFork } policy prio := by
    rw [Sys.task, core_setschedulerChange, Core.setTask_self]
  rw [htask]
  exact ⟨setscheduler_policy _ policy prio, setscheduler_rtPriority _ policy prio⟩

lemma reachable_afterOthers {boot : Boot T} (h : Reachable K boot s)
    (hothers : ∀ r ∈ rounds, ∀ s, Reachable K boot s → Reachable K boot (r.others s)) :
    Reachable K boot (afterOthers rounds s) := by
  induction rounds generalizing s with
  | nil => exact h
  | cons r rounds ih =>
      exact ih (hothers r List.mem_cons_self s h) fun r' hr' =>
        hothers r' (List.mem_cons_of_mem r hr')

lemma TaskStruct.WellSet.policy_ne {t : TaskStruct} (h : t.WellSet) : t.policy ≠ -1 := by
  intro hminus
  have hpolicy := h.policy
  rw [hminus] at hpolicy
  exact absurd hpolicy (by decide)

/-- **When a successful call takes effect**: always, but for a WRR task that is to stay in WRR with
another priority. -/
theorem setscheduler_effect_iff (hK : Laws K queued) {boot : Boot T} (hs : Reachable K boot s)
    (hothers : ∀ r ∈ rounds, ∀ s, Reachable K boot s → Reachable K boot (r.others s)) {user : Bool}
    {h : Held T E}
    (hloop : schedSetschedulerLoop K rtGroupSched user p prio rounds ⟨s, 0, 0⟩ policy =
      some (0, h)) :
    ∃ n ≤ rounds.length, ∃ s₁, s₁ = afterOthers (rounds.take n) s ∧
      (h.sys = s₁ ∨ ∃ resetOnFork, h.sys =
        setschedulerChange K s₁ p (requestedPolicy (s₁.task p) policy) prio resetOnFork) ∧
      ((h.sys.task p).policy = requestedPolicy (s₁.task p) policy ∧
          (h.sys.task p).rtPriority = prio ↔
        ¬(requestedPolicy (s₁.task p) policy = schedWrr ∧ (s₁.task p).policy = schedWrr ∧
          (s₁.task p).rtPriority ≠ prio)) := by
  rcases schedSetschedulerLoop_spec user rounds policy _ h 0 hloop with
    ⟨-, -, n, hn, m, -, hreturns⟩
  have hwell : ∀ n, ((afterOthers (rounds.take n) s).task p).WellSet := fun n =>
    (reachable_afterOthers hs fun r hr => hothers r (List.mem_of_mem_take hr)).wellSet hK p
  have hset := hwell n
  refine ⟨n, hn, _, rfl, ?_⟩
  generalize afterOthers (rounds.take n) s = s₁ at hreturns hset
  generalize h.sys = s' at hreturns ⊢
  cases hreturns with
  | failed hret => exact absurd rfl hret
  | unchanged hrt hpolicy hprio =>
      refine ⟨.inl rfl, ?_⟩
      rw [hpolicy]
      constructor
      · rintro ⟨-, heq⟩ ⟨-, -, hne⟩
        exact hne heq
      · intro hwrr
        refine ⟨rfl, ?_⟩
        by_contra hne
        have hpol : (s₁.task p).policy ≠ schedWrr := fun h => hwrr ⟨h, h, hne⟩
        rcases hprio with hprio | hprio
        · -- neither a real-time policy nor WRR: both priorities are 0
          have hzero := hset.rtPriority hprio hpol
          have hrt' := hrt.resolve_right hpol
          rw [hprio] at hrt'
          have hprio0 : prio = 0 := not_not.mp (of_decide_eq_false hrt'.symm)
          exact hne (hzero.trans hprio0.symm)
        · exact hne hprio.symm
  | @changed newPolicy resetOnFork hpolicy hnew =>
      have hrequest : newPolicy = requestedPolicy (s₁.task p) policy :=
        hpolicy.resolve_right fun hminus => (hwell m).policy_ne hminus.2
      subst hrequest
      refine ⟨.inr ⟨resetOnFork, rfl⟩, ?_⟩
      have hparams := setschedulerChange_params (K := K) s₁ p
        (requestedPolicy (s₁.task p) policy) prio resetOnFork
      refine iff_of_true hparams ?_
      rintro ⟨hwrr, hpol, -⟩
      refine hnew ⟨hwrr.trans hpol.symm, .inl ?_⟩
      rw [hwrr]
      exact rtPolicy_schedWrr

end

/-- What others may do with the locks: one operation, where it is allowed. -/
def otherOp (op : Op ℕ) (s : Sys ℕ (SchedClass → List ℕ)) : Sys ℕ (SchedClass → List ℕ) :=
  (runOps (fifoKernel smallConfig) Allowed s [op]).getD s

lemma reachable_otherOp (op : Op ℕ) {s : Sys ℕ (SchedClass → List ℕ)}
    (h : Reachable (fifoKernel smallConfig) smallBoot s) :
    Reachable (fifoKernel smallConfig) smallBoot (otherOp op s) := by
  rw [otherOp]
  cases hrun : runOps (fifoKernel smallConfig) Allowed s [op] with
  | none => exact h
  | some s' => exact Run.runOps _ h hrun

/-- `sched_setparam` on a FIFO task that others make an RR task in between. -/
theorem setscheduler_effect_recheck :
    ∃ s h, runOps (fifoKernel smallConfig) Allowed (init (fifoKernel smallConfig) smallBoot)
        [.fork 2, .wakeUpNewTask 2, .setscheduler 2 schedFifo 10 false] = some s ∧
      schedSetschedulerLoop (fifoKernel smallConfig) false false 2 20
        [⟨false, false, 0, otherOp (.setscheduler 2 schedRr 10 false), uniformRtGroups 0⟩,
          ⟨false, false, 0, id, uniformRtGroups 0⟩]
        ⟨s, 0, 0⟩ (-1) = some (0, h) ∧
      ∃ n ≤ 2, ∃ s₁, s₁ = afterOthers (([⟨false, false, 0,
          otherOp (.setscheduler 2 schedRr 10 false), uniformRtGroups 0⟩,
          ⟨false, false, 0, id, uniformRtGroups 0⟩] : List (Round ℕ _)).take n) s ∧
        (h.sys = s₁ ∨ ∃ resetOnFork, h.sys = setschedulerChange (fifoKernel smallConfig) s₁ 2
          (requestedPolicy (s₁.task 2) (-1)) 20 resetOnFork) ∧
        ((h.sys.task 2).policy = requestedPolicy (s₁.task 2) (-1) ∧ (h.sys.task 2).rtPriority = 20 ↔
          ¬(requestedPolicy (s₁.task 2) (-1) = schedWrr ∧ (s₁.task 2).policy = schedWrr ∧
            (s₁.task 2).rtPriority ≠ 20)) := by
  have hrun : ∃ s, runOps (fifoKernel smallConfig) Allowed
      (init (fifoKernel smallConfig) smallBoot)
      [.fork 2, .wakeUpNewTask 2, .setscheduler 2 schedFifo 10 false] = some s ∧
      (schedSetschedulerLoop (fifoKernel smallConfig) false false 2 20
        [⟨false, false, 0, otherOp (.setscheduler 2 schedRr 10 false), uniformRtGroups 0⟩,
          ⟨false, false, 0, id, uniformRtGroups 0⟩]
        ⟨s, 0, 0⟩ (-1)).any (fun v => v.1 = 0) = true := exists_of_any (by decide)
  rcases hrun with ⟨s, hs, hcall⟩
  rcases exists_of_any hcall with ⟨⟨_, h⟩, hloop, rfl⟩
  refine ⟨s, h, hs, hloop, setscheduler_effect_iff (fifoKernel_laws smallConfig)
    (Run.runOps _ .init hs) (fun r hr s hreach => ?_) hloop⟩
  rcases List.mem_cons.mp hr with rfl | hr
  · exact reachable_otherOp _ hreach
  · rw [List.mem_singleton.mp hr]
    exact hreach

/-- A WRR task asks for WRR with priority 10: the call succeeds, and the priority stays 0. -/
theorem setscheduler_no_effect_wrr :
    ∃ s h, runOps (fifoKernel smallConfig) Allowed (init (fifoKernel smallConfig) smallBoot)
        [.fork 2, .wakeUpNewTask 2, .setscheduler 2 schedWrr 0 false] = some s ∧
      schedSetschedulerLoop (fifoKernel smallConfig) false true 2 10
        [⟨false, true, 0, id, uniformRtGroups 0⟩] ⟨s, 0, 0⟩ schedWrr = some (0, h) ∧
      (h.sys.task 2).policy = schedWrr ∧ (h.sys.task 2).rtPriority ≠ 10 := by
  have hrun : ∃ s, runOps (fifoKernel smallConfig) Allowed
      (init (fifoKernel smallConfig) smallBoot)
      [.fork 2, .wakeUpNewTask 2, .setscheduler 2 schedWrr 0 false] = some s ∧
      (schedSetschedulerLoop (fifoKernel smallConfig) false true 2 10
        [⟨false, true, 0, id, uniformRtGroups 0⟩] ⟨s, 0, 0⟩ schedWrr).any (fun v =>
          v.1 = 0 ∧ (v.2.sys.task 2).policy = schedWrr ∧ (v.2.sys.task 2).rtPriority ≠ 10)
        = true := exists_of_any (by decide)
  rcases hrun with ⟨s, hs, hcall⟩
  rcases exists_of_any hcall with ⟨⟨_, h⟩, hloop, rfl, hpolicy, hprio⟩
  exact ⟨s, h, hs, hloop, hpolicy, hprio⟩

end Sched
