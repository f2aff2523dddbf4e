import OsPrj.Sched.Invariant

/-!
# The shortcut of pick_next_task

`pick_next_task` asks the fair class first when `rq->nr_running` equals `rq->cfs.h_nr_running`.

* `pick_next_task_shortcut` — **the shortcut returns what the walk over the classes returns**, in
  every state in which `pick_next_task` can be called; the WRR class offers the head of its queue.
-/

namespace Sched

variable {T E : Type} [DecidableEq T] {K : Kernel T E} {queued : E → SchedClass → Finset T}
  {s s' : Sys T E} {wrr : List T} {p : T}

/-- Where `pick_next_task` can be called: between two operations, and in `__schedule` after `prev`
has been put off the queue. -/
inductive PickState (K : Kernel T E) (boot : Boot T) : Sys T E → Prop where
  | reachable {s : Sys T E} : Reachable K boot s → PickState K boot s
  | schedule {s : Sys T E} {a : ScheduleArgs T} : Reachable K boot s → Allowed s (.schedule a) →
      PickState K boot (putPrevTask K (scheduleOut K s a) s.core.curr)
  | schedYield {s : Sys T E} {a : ScheduleArgs T} : Reachable K boot s →
      Allowed s (.schedYield a) →
      PickState K boot (putPrevTask K (scheduleOut K (yieldTask K s) a) s.core.curr)

/-- The queues and counters agree there. -/
lemma PickState.consistent (hK : Laws K queued) {boot : Boot T} (h : PickState K boot s) :
    ∃ wrr, Consistent K queued s wrr := by
  have hput : ∀ {s : Sys T E} {wrr : List T} (p : T), Consistent K queued s wrr →
      Consistent K queued (putPrevTask K s p) wrr := fun p hs =>
    (hs.quiet (quiet_putPrevTask hK.toQuietHooks _ p) p).consistent
  cases h with
  | reachable hreach =>
      rcases hreach.inv hK with ⟨wrr, hinv⟩
      exact ⟨wrr, hinv.toConsistent⟩
  | schedule hreach hallowed =>
      rcases hreach.inv hK with ⟨wrr, hinv⟩
      rcases hinv.scheduleOut hK _ hallowed with ⟨wrr', hout⟩
      exact ⟨wrr', hput _ hout.consistent⟩
  | schedYield hreach hallowed =>
      rcases hreach.inv hK with ⟨wrr, hinv⟩
      rcases hinv.toConsistent.yieldTask hK with ⟨wrr₁, hyield⟩
      rcases (hyield.inv hinv).scheduleOut hK _ fun p hp =>
        hyield.tasklist p (hallowed p hp) with ⟨wrr', hout⟩
      exact ⟨wrr', hput _ hout.consistent⟩

/-- A class offers a task or declines. -/
lemma Consistent.declines (hK : Laws K queued) (h : Consistent K queued s wrr) {c : SchedClass}
    (hnone : ∀ p s', ¬Offers K c s p s') : Declines K c s := by
  rcases h.layout.classPickNextTask hK h.wrrThrottled c with
    ⟨hdecline, -⟩ | ⟨p, s', hoffer, -⟩
  · exact hdecline
  · exact absurd hoffer (hnone p s')

/-- What the WRR class offers. -/
lemma Consistent.pickNextTaskWrr (h : Consistent K queued s wrr) :
    pickNextTaskWrr s = .ok (wrr.head?, wrr.head?.elim s (wrrPicked s)) := by
  rcases h.layout.sound with ⟨rt, hs, -⟩
  exact hs.pickNextTaskWrr h.wrrThrottled

/-- **The shortcut agrees with the walk over the classes**: both return the same task and do the
same to the run queue.  When neither stop nor RT offers a task, that is the head of the WRR queue,
a queued WRR task; when the queue is empty, the WRR class offers nothing. -/
theorem pick_next_task_shortcut (hK : Laws K queued) {boot : Boot T} (h : PickState K boot s) :
    ∃ wrr p s', WrrQueue s wrr ∧ pickNextTask K s = .ok (p, s') ∧
      pickFirst K forEachClass s = .ok (p, s') ∧
      ((∀ q s₁, ¬Offers K .stop s q s₁) → (∀ q s₁, ¬Offers K .rt s q s₁) → wrr ≠ [] →
        wrr.head? = some p ∧ (s.task p).onRq = true ∧ (s.task p).schedClass = .wrr) ∧
      (wrr = [] → pickNextTaskWrr s = .ok (none, s)) := by
  rcases h.consistent hK with ⟨wrr, hs⟩
  rcases hs.layout.pickNextTask hK hs.wrrThrottled with ⟨-, c, -, p, s', -, -, -, hpick⟩
  have hwalk := hs.layout.pickNextTask_eq hK hs.wrrThrottled
  have hwrr := hs.pickNextTaskWrr
  rw [hwalk] at hpick
  refine ⟨wrr, p, s', hs.layout.wrrQueue, hwalk.trans hpick, hpick, ?_, ?_⟩
  · intro hstop hrt hne
    rcases List.exists_cons_of_ne_nil hne with ⟨q, l, rfl⟩
    have hoffer : Offers K .wrr s q (wrrPicked s q) := hwrr
    rw [forEachClass, (hs.declines hK hstop).pickFirst, (hs.declines hK hrt).pickFirst,
      hoffer.pickFirst] at hpick
    obtain rfl : q = p := congrArg Prod.fst (Except.ok.inj hpick)
    exact ⟨rfl, (hs.mem_wrr q).mp List.mem_cons_self⟩
  · rintro rfl
    exact hwrr

/-- A WRR task runs, and a fair and a WRR task wait: the stop and the RT class offer nothing. -/
theorem pick_next_task_shortcut_two :
    ∃ s, runOps (fifoKernel smallConfig) Allowed (init (fifoKernel smallConfig) smallBoot)
        [.fork 2, .wakeUpNewTask 2, .schedule ⟨false, false, none⟩,
          .fork 3, .wakeUpNewTask 3, .fork 4, .wakeUpNewTask 4, .setscheduler 4 schedWrr 0 false,
          .setscheduler 2 schedWrr 0 false] = some s ∧
      ∃ wrr p s', WrrQueue s wrr ∧ pickNextTask (fifoKernel smallConfig) s = .ok (p, s') ∧
        pickFirst (fifoKernel smallConfig) forEachClass s = .ok (p, s') ∧
        ((∀ q s₁, ¬Offers (fifoKernel smallConfig) .stop s q s₁) →
          (∀ q s₁, ¬Offers (fifoKernel smallConfig) .rt s q s₁) → wrr ≠ [] →
          wrr.head? = some p ∧ (s.task p).onRq = true ∧ (s.task p).schedClass = .wrr) ∧
        (wrr = [] → pickNextTaskWrr s = .ok (none, s)) := by
  refine Option.isSome_iff_exists.mp ?_ |>.imp fun s hs => ⟨hs, ?_⟩
  · decide
  · exact pick_next_task_shortcut (fifoKernel_laws smallConfig)
      (.reachable (Run.runOps _ .init hs))

end Sched
