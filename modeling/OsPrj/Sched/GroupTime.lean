import OsPrj.Sched.CpuTime
import Mathlib.Algebra.BigOperators.Ring.Finset

/-!
# The CPU time of a thread group

`update_curr_rt` passes what it charges on to `account_group_exec_runtime`; `update_curr_wrr` does
not.

* `groupSum` — the execution times of the threads of a group, added up.
* `group_runtime_in_step` — **the ledger of the group grows by just as much**, as long as
  `update_curr_wrr` is not called while one of its threads runs in the WRR class.
-/

namespace Sched

variable {T E : Type} [DecidableEq T] {K : Kernel T E} {called : Prop} {s s' : Sys T E} {p : T}

/-! ## Threads -/

/-- `copy_process`: `sched_fork`, and the thread group of the child, which is that of its parent or
a new one. -/
def copyProcess (K : Kernel T E) (s : Sys T E) (p : T) (tgid : ℕ) : Sys T E :=
  (schedFork K s p).setTask p fun t => { t with tgid := tgid }

/-- The states that sequences of operations and of `copy_process` lead to from `s₀`. -/
inductive ThreadRun (K : Kernel T E) (s₀ : Sys T E) (ok : Sys T E → Op T → Prop) :
    Sys T E → Prop where
  | init : ThreadRun K s₀ ok s₀
  | copyProcess {s : Sys T E} {p : T} (tgid : ℕ) :
      ThreadRun K s₀ ok s → Called s (.fork p) → ThreadRun K s₀ ok (copyProcess K s p tgid)
  | step {s s' : Sys T E} {op : Op T} :
      ThreadRun K s₀ ok s → ok s op → step K s op = .ok s' → ThreadRun K s₀ ok s'

lemma ThreadRun.run {s₀ s₁ : Sys T E} {ok : Sys T E → Op T → Prop} (h : ThreadRun K s₀ ok s₁)
    (h' : Run K s₁ ok s) : ThreadRun K s₀ ok s := by
  induction h' with
  | init => exact h
  | step _ hop hstep ih => exact ih.step hop hstep

lemma ThreadRun.mono {s₀ : Sys T E} {ok ok' : Sys T E → Op T → Prop}
    (hok : ∀ s op, ok s op → ok' s op) (h : ThreadRun K s₀ ok s) : ThreadRun K s₀ ok' s := by
  induction h with
  | init => exact .init
  | copyProcess tgid _ hop ih => exact .copyProcess tgid ih hop
  | step _ hop hstep ih => exact ih.step (hok _ _ hop) hstep

lemma ThreadRun.trans {s₀ s₁ : Sys T E} {ok : Sys T E → Op T → Prop} (h : ThreadRun K s₀ ok s₁)
    (h' : ThreadRun K s₁ ok s) : ThreadRun K s₀ ok s := by
  induction h' with
  | init => exact h
  | copyProcess tgid _ hop ih => exact .copyProcess tgid ih hop
  | step _ hop hstep ih => exact ih.step hop hstep

/-- The invariant does not depend on the thread groups. -/
lemma Inv.copyProcess {queued : E → SchedClass → Finset T} {wrr : List T} (hlaws : Laws K queued)
    (h : Inv K queued s wrr) (hop : Allowed s (.fork p)) (tgid : ℕ) :
    ∃ wrr', Inv K queued (copyProcess K s p tgid) wrr' := by
  rcases h.step hlaws hop with ⟨s', wrr', hstep, hstepped⟩
  obtain rfl := Except.ok.inj hstep
  have hinv := hstepped.inv
  have hp : p ∈ (schedFork K s p).core.tasklist := by
    rw [(quiet_schedFork (quietHooks_unit K) s p).core, core_forkedSys]
    exact List.mem_cons_self
  have hvalid := hinv.core.valid p
  have hset := hinv.toConsistent.setTask (f := fun t => { t with tgid := tgid }) hp
    ⟨⟨hvalid.normalPrio, hvalid.staticPrio, hvalid.rtPriority, hvalid.topPiWaiter⟩, hvalid.prio⟩
    (hinv.core.schedClass_ne_idle hp) rfl rfl (schedFork K s p).core.curr
  exact ⟨wrr', hset.inv hinv⟩

theorem ThreadRun.inv {queued : E → SchedClass → Finset T} (hlaws : Laws K queued) {boot : Boot T}
    (h : ThreadRun K (Sched.init K boot) Called s) : ∃ wrr, Inv K queued s wrr := by
  induction h with
  | init => exact ⟨[], inv_init hlaws boot⟩
  | copyProcess tgid _ hop ih =>
      rcases ih with ⟨wrr, hinv⟩
      exact hinv.copyProcess hlaws hop.1 tgid
  | step _ hop hstep ih =>
      rcases ih with ⟨wrr, hinv⟩
      rcases hinv.step hlaws hop.1 with ⟨s', wrr', hok, hstepped⟩
      rw [hok] at hstep
      obtain rfl := Except.ok.inj hstep
      exact ⟨wrr', hstepped.inv⟩

/-! ## The two totals -/

/-- The threads of a group. -/
def groupThreads (s : Sys T E) (g : ℕ) : Finset T :=
  s.core.tasklist.toFinset.filter fun p => (s.task p).tgid = g

/-- The execution times of the threads of a group, added up. -/
def groupSum (s : Sys T E) (g : ℕ) : BitVec 64 :=
  ∑ p ∈ groupThreads s g, (s.acct.se p).sumExecRuntime

lemma mem_groupThreads {g : ℕ} :
    p ∈ groupThreads s g ↔ p ∈ s.core.tasklist ∧ (s.task p).tgid = g := by
  rw [groupThreads, Finset.mem_filter, List.mem_toFinset]

/-- What is charged to the current task goes to the total of its group. -/
lemma groupSum_of_charged {shared alone : BitVec 64} (h : Charged called s s' shared alone)
    (hthreads : Threads s s') (hcurr : shared + alone ≠ 0 → s.core.curr ∈ s.core.tasklist) (g : ℕ) :
    groupSum s' g = groupSum s g +
      if g = (s.task s.core.curr).tgid then shared + alone else 0 := by
  have hsub : groupThreads s g ⊆ groupThreads s' g := by
    intro p hp
    rw [mem_groupThreads] at hp ⊢
    exact ⟨hthreads.tasklist p hp.1, (hthreads.tgid p (.inl hp.1)).trans hp.2⟩
  have hfresh : ∀ p ∈ groupThreads s' g, p ∉ groupThreads s g →
      (s'.acct.se p).sumExecRuntime = 0 := by
    intro p hp hnew
    rw [mem_groupThreads] at hp hnew
    rcases hthreads.fresh p hp.1 with hold | ⟨-, hsum⟩
    · exact absurd ⟨hold, (hthreads.tgid p (.inl hold)).symm.trans hp.2⟩ hnew
    · exact hsum
  have hold : ∀ p ∈ groupThreads s g, (s'.acct.se p).sumExecRuntime =
      (s.acct.se p).sumExecRuntime + if p = s.core.curr then shared + alone else 0 :=
    fun p hp => h.sum p (mem_groupThreads.mp hp).1
  calc groupSum s' g = ∑ p ∈ groupThreads s g, (s'.acct.se p).sumExecRuntime :=
        (Finset.sum_subset hsub hfresh).symm
    _ = ∑ p ∈ groupThreads s g,
          ((s.acct.se p).sumExecRuntime + if p = s.core.curr then shared + alone else 0) :=
        Finset.sum_congr rfl hold
    _ = groupSum s g + if s.core.curr ∈ groupThreads s g then shared + alone else 0 := by
        rw [Finset.sum_add_distrib, Finset.sum_ite_eq']
        rfl
    _ = _ := by
        congr 1
        by_cases hg : g = (s.task s.core.curr).tgid
        · by_cases hzero : shared + alone = 0
          · rw [hzero, ite_self, ite_self]
          · rw [if_pos hg, if_pos (mem_groupThreads.mpr ⟨hcurr hzero, hg.symm⟩)]
        · rw [if_neg hg, if_neg fun hmem => hg (mem_groupThreads.mp hmem).2.symm]

/-- The ledger and the total of a group grow alike, unless its thread is charged alone. -/
lemma groupRuntime_of_charged {shared alone : BitVec 64} (h : Charged called s s' shared alone)
    (hthreads : Threads s s') (hcurr : shared + alone ≠ 0 → s.core.curr ∈ s.core.tasklist) {g : ℕ}
    (halone : g = (s.task s.core.curr).tgid → alone = 0) :
    s'.acct.groupRuntime g - s.acct.groupRuntime g = groupSum s' g - groupSum s g := by
  rw [h.ledger g, groupSum_of_charged h hthreads hcurr g, add_sub_cancel_left, add_sub_cancel_left]
  split_ifs with hg
  · rw [halone hg, add_zero]
  · rfl

/-- No thread but the current one is charged, and the idle task is not. -/
lemma Inv.charged_listed {queued : E → SchedClass → Finset T} {wrr : List T}
    (hinv : Inv K queued s wrr) {shared alone : BitVec 64} (h : Charged called s s' shared alone)
    (hne : shared + alone ≠ 0) : s.core.curr ∈ s.core.tasklist := by
  refine hinv.curr_listed fun hidle => hne ?_
  have hclass : currClass s = .idle := by
    rw [currClass, hidle, Sys.task, hinv.core.idle]
    rfl
  have hshared : shared = 0 := by
    by_contra hne'
    exact h.group hne' hclass
  have halone : alone = 0 := by
    by_contra hne'
    exact SchedClass.noConfusion (hclass.symm.trans (h.wrr hne').2)
  rw [hshared, halone, add_zero]

/-! ## Runs -/

/-- `update_curr_wrr` is called while a thread of the group runs in the WRR class. -/
def ChargesWrrOf (g : ℕ) (s : Sys T E) (op : Op T) : Prop :=
  (s.task s.core.curr).tgid = g ∧ currClass s = .wrr ∧ ChargesWrr s op

instance (g : ℕ) (s : Sys T E) (op : Op T) : Decidable (ChargesWrrOf g s op) :=
  inferInstanceAs (Decidable (_ ∧ _ ∧ _))

section

variable {queued : E → SchedClass → Finset T} {wrr : List T} (hhooks : ChargingHooks K)
  (hlaws : Laws K queued)
include hhooks hlaws

omit hlaws in
lemma copyProcess_groupRuntime (h : Inv K queued s wrr) (hop : Allowed s (.fork p))
    (tgid g : ℕ) : (copyProcess K s p tgid).acct.groupRuntime g - s.acct.groupRuntime g
      = groupSum (copyProcess K s p tgid) g - groupSum s g := by
  have hcurr : p ≠ s.core.curr := by
    rintro rfl
    exact hop.1 (h.curr_listed hop.2)
  have hfork : Accounted K False s (schedFork K s p) := accounted_schedFork hhooks s p hop.1 hcurr
  rcases hfork.charged with ⟨d, w, hcharged⟩
  have hcharged' : Charged False s (copyProcess K s p tgid) d w :=
    ⟨hcharged.group, hcharged.wrr, hcharged.sum, hcharged.ledger⟩
  have hthreads : Threads s (copyProcess K s p tgid) := by
    refine ⟨hfork.threads.tasklist, hfork.threads.fresh, fun q hq => ?_⟩
    have hne : q ≠ p := by
      rintro rfl
      exact hq.elim hop.1 hcurr
    rw [copyProcess, setTask_task_of_ne _ hne]
    exact hfork.threads.tgid q hq
  refine groupRuntime_of_charged hcharged' hthreads (h.charged_listed hcharged') fun _ => ?_
  by_contra hne
  exact (hcharged'.wrr hne).1

lemma step_groupRuntime (h : Inv K queued s wrr) {op : Op T} (hop : Called s op) {g : ℕ}
    (hcharges : ¬ChargesWrrOf g s op) (hstep : step K s op = .ok s') :
    s'.acct.groupRuntime g - s.acct.groupRuntime g = groupSum s' g - groupSum s g := by
  rcases (step_accounts hhooks hlaws h hop.1 hop.ne_pick hstep).charged with
    ⟨d, w, hcharged, hthreads⟩
  refine groupRuntime_of_charged hcharged hthreads (h.charged_listed hcharged) fun hg => ?_
  by_contra hne
  exact hcharges ⟨hg.symm, (hcharged.wrr hne).2, (hcharged.wrr hne).1⟩

/-- **The ledger of a thread group grows by what its threads are charged**, in every run in which
`update_curr_wrr` is not called while one of them runs in the WRR class. -/
theorem group_runtime_in_step {boot : Boot T} {s₀ : Sys T E} {g : ℕ}
    (h₀ : ThreadRun K (init K boot) Called s₀)
    (h : ThreadRun K s₀ (fun s op => Called s op ∧ ¬ChargesWrrOf g s op) s) :
    s.acct.groupRuntime g - s₀.acct.groupRuntime g = groupSum s g - groupSum s₀ g := by
  induction h with
  | init => rw [sub_self, sub_self]
  | @copyProcess s p tgid hrun hop ih =>
      rcases (h₀.trans (hrun.mono fun _ _ hok => hok.1)).inv hlaws with ⟨wrr, hinv⟩
      have hstep := copyProcess_groupRuntime hhooks hinv hop.1 tgid g
      rw [← sub_add_sub_cancel _ (s.acct.groupRuntime g), hstep, ih, sub_add_sub_cancel]
  | @step s s' op hrun hop hstep ih =>
      rcases (h₀.trans (hrun.mono fun _ _ hok => hok.1)).inv hlaws with ⟨wrr, hinv⟩
      have hstep' := step_groupRuntime hhooks hlaws hinv hop.1 hop.2 hstep
      rw [← sub_add_sub_cancel _ (s.acct.groupRuntime g), hstep', ih, sub_add_sub_cancel]

end

/-- A new process, in the group `7`, runs in the RT class and is charged by the tick. -/
theorem group_runtime_in_step_rt :
    ∃ s, ThreadRun (fifoKernel smallConfig) (init (fifoKernel smallConfig) smallBoot)
        (fun s op => Called s op ∧ ¬ChargesWrrOf 7 s op) s ∧
      groupSum s 7 ≠ 0 ∧
      s.acct.groupRuntime 7 - (init (fifoKernel smallConfig) smallBoot).acct.groupRuntime 7
        = groupSum s 7 - groupSum (init (fifoKernel smallConfig) smallBoot) 7 := by
  have hrun : ∃ s, runOps (fifoKernel smallConfig) (fun s op => Called s op ∧ ¬ChargesWrrOf 7 s op)
      (copyProcess (fifoKernel smallConfig) (init (fifoKernel smallConfig) smallBoot) 2 7)
      [.setscheduler 2 schedFifo 10 false, .wakeUpNewTask 2, .schedule ⟨false, false, none⟩,
        .schedulerTick] = some s ∧ groupSum s 7 ≠ 0 := exists_of_any (by decide)
  rcases hrun with ⟨s, hs, hsum⟩
  have hfork : Called (init (fifoKernel smallConfig) smallBoot) (.fork 2) := by decide
  have hthreads := (ThreadRun.copyProcess 7 .init hfork).run (Run.runOps _ .init hs)
  exact ⟨s, hthreads, hsum,
    group_runtime_in_step (fifoKernel_charging smallConfig) (fifoKernel_laws smallConfig) .init
      hthreads⟩

/-- A new process, in the group `7`, runs in the WRR class: the tick charges it, and the ledger of
its group stays at `0`. -/
theorem group_runtime_behind_wrr :
    ∃ s, ThreadRun (fifoKernel smallConfig) (init (fifoKernel smallConfig) smallBoot) Called s ∧
      groupThreads s 7 = {2} ∧ CurrentWrr s 2 ∧ groupSum s 7 ≠ 0 ∧ s.acct.groupRuntime 7 = 0 ∧
      s.acct.groupRuntime 7 - (init (fifoKernel smallConfig) smallBoot).acct.groupRuntime 7
        ≠ groupSum s 7 - groupSum (init (fifoKernel smallConfig) smallBoot) 7 := by
  have hrun : ∃ s, runOps (fifoKernel smallConfig) Called
      (copyProcess (fifoKernel smallConfig) (init (fifoKernel smallConfig) smallBoot) 2 7)
      [.setscheduler 2 schedWrr 10 false, .wakeUpNewTask 2, .schedule ⟨false, false, none⟩,
        .schedulerTick] = some s ∧
      groupThreads s 7 = {2} ∧ CurrentWrr s 2 ∧ groupSum s 7 ≠ 0 ∧ s.acct.groupRuntime 7 = 0 ∧
      s.acct.groupRuntime 7 - (init (fifoKernel smallConfig) smallBoot).acct.groupRuntime 7
        ≠ groupSum s 7 - groupSum (init (fifoKernel smallConfig) smallBoot) 7 :=
    exists_of_any (by decide)
  rcases hrun with ⟨s, hs, hbehind⟩
  have hfork : Called (init (fifoKernel smallConfig) smallBoot) (.fork 2) := by decide
  exact ⟨s, (ThreadRun.copyProcess 7 .init hfork).run (Run.runOps _ .init hs), hbehind⟩

end Sched
