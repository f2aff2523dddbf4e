import OsPrj.Sched.Params
import OsPrj.Sched.RoundRobinRt

/-!
# normalize_rt_tasks

The loop over all threads that takes real-time tasks of users back to the fair class.  It tests the
effective priority, so a task is taken for a real-time one by `prio`, not by its class.

* `normalizedTask` — what one round of the loop makes of a task.
* `task_normalizeRtTasks` — what the whole loop makes of all tasks.
* `QueuedOnce` — a task is in one of the queues, and there once.
* `normalize_rt_tasks_iff` — **the states in which the loop does what it is for**.
-/

namespace Sched

variable {T E : Type} [DecidableEq T] (K : Kernel T E)

/-! ## The loop -/

def normalizeTask (s : Sys T E) (p : T) : Sys T E :=
  let prevClass := (s.task p).schedClass
  let oldPrio := (s.task p).prio
  let onRq := (s.task p).onRq
  let s := if onRq then dequeueTask K s p false else s
  let s := s.setTask p fun t => setscheduler t schedNormal 0
  let s :=
    if onRq then
      let s := enqueueTask K s p { wakeup := false, head := false }
      s.reschedTask s.core.curr
    else s
  checkClassChanged K s p prevClass oldPrio

/-- The body of the loop. -/
def normalizeThread (s : Sys T E) (p : T) : Sys T E :=
  if !(s.task p).hasMm then s
  else
    let s := s.setSe p fun se => { se with execStart := 0 }
    if !rtPrio (s.task p).prio then
      if prioToNice (s.task p).staticPrio < 0 ∧ (s.task p).hasMm then setUserNice K s p 0 else s
    else normalizeTask K s p

/-- `normalize_rt_tasks`, where `threads` are the threads in the order of `do_each_thread`. -/
def normalizeRtTasks (threads : List T) (s : Sys T E) : Sys T E :=
  threads.foldl (normalizeThread K) s

/-! ## One round -/

/-- What one round makes of a task. -/
def normalizedTask (t : TaskStruct) : TaskStruct :=
  if !t.hasMm then t
  else if !rtPrio t.prio then if prioToNice t.staticPrio < 0 then nicedTask t 0 else t
  else setscheduler t schedNormal 0

@[simp] lemma normalizedTask_onRq (t : TaskStruct) : (normalizedTask t).onRq = t.onRq := by
  rw [normalizedTask]
  split_ifs
  · rfl
  · exact nicedTask_onRq t 0
  · rfl
  · exact setscheduler_onRq t schedNormal 0

/-- Without a boost, `SCHED_NORMAL` is the fair class. -/
lemma setscheduler_schedNormal {t : TaskStruct} (h : t.InRange) (hpi : t.topPiWaiter = none)
    (prio : ℤ) : (setscheduler t schedNormal prio).schedClass = .fair := by
  have hne : schedNormal ≠ schedWrr := by decide
  have hprio : (setscheduler t schedNormal prio).prio = t.staticPrio := by
    rw [setscheduler_prio, rtMutexGetprio, setscheduler_topPiWaiter, hpi, setscheduler_normalPrio]
    rfl
  rw [setscheduler_schedClass, if_neg hne, hprio, not_rtPrio h.staticPrio.1]
  rfl

/-- **When a round takes a user task below the real-time classes**: the tasks that it moves are
those with a real-time priority. -/
theorem normalizedTask_rank_iff {t : TaskStruct} (h : t.Valid) (hmm : t.hasMm = true)
    (hpi : t.topPiWaiter = none) (hstop : t.schedClass = .stop → rtPrio t.prio = true) :
    (normalizedTask t).schedClass.rank ≤ SchedClass.fair.rank ↔
      (t.schedClass = .wrr → rtPrio t.prio = true) := by
  rw [normalizedTask, hmm]
  cases hrt : rtPrio t.prio with
  | true =>
      refine iff_of_true ?_ fun _ => rfl
      have hfair := setscheduler_schedNormal h.toInRange hpi 0
      simp [hfair]
  | false =>
      have hclass : (if prioToNice t.staticPrio < 0 then nicedTask t 0 else t).schedClass =
          t.schedClass := by
        split_ifs
        · exact nicedTask_schedClass t 0
        · rfl
      have hnotRt : t.schedClass ≠ .rt := by
        intro hc
        have hlt : rtPrio t.prio = true := decide_eq_true (h.prio hc).2
        rw [hrt] at hlt
        exact Bool.noConfusion hlt
      have hnotStop : t.schedClass ≠ .stop := by
        intro hc
        rw [hstop hc] at hrt
        exact Bool.noConfusion hrt
      simp only [Bool.not_true, Bool.not_false, Bool.false_eq_true, if_false, if_true, hclass]
      cases hc : t.schedClass with
      | stop => exact absurd hc hnotStop
      | rt => exact absurd hc hnotRt
      | wrr => simp [SchedClass.rank]
      | fair => simp [SchedClass.rank]
      | idle => simp [SchedClass.rank]

section

variable {K} {queued : E → SchedClass → Finset T} {s s' : Sys T E} {wrr wrr' : List T} {p : T}
  {threads : List T}

/-- `normalize_task` up to what it tells the classes. -/
lemma normalizeTask_eq (s : Sys T E) (p : T) : normalizeTask K s p = checkClassChanged K
    (if (s.task p).onRq then
      (enqueueTask K ((if (s.task p).onRq then dequeueTask K s p false else s).setTask p fun t =>
        setscheduler t schedNormal 0) p { wakeup := false, head := false }).reschedTask
        (enqueueTask K ((if (s.task p).onRq then dequeueTask K s p false else s).setTask p fun t =>
          setscheduler t schedNormal 0) p { wakeup := false, head := false }).core.curr
    else (if (s.task p).onRq then dequeueTask K s p false else s).setTask p fun t =>
      setscheduler t schedNormal 0) p (s.task p).schedClass (s.task p).prio := rfl

/-- Its end, after the enqueue. -/
lemma quiet_normalizeTask {X : Type} {view : E → X} (hK : QuietHooks K view) (s : Sys T E) (p : T) :
    Quiet view
      (if (s.task p).onRq then
        enqueueTask K ((if (s.task p).onRq then dequeueTask K s p false else s).setTask p fun t =>
          setscheduler t schedNormal 0) p { wakeup := false, head := false }
      else (if (s.task p).onRq then dequeueTask K s p false else s).setTask p fun t =>
        setscheduler t schedNormal 0)
      (normalizeTask K s p) := by
  rw [normalizeTask_eq]
  refine Quiet.trans ?_ (quiet_checkClassChanged hK _ p _ _)
  split_ifs
  · exact quiet_reschedTask _ _
  · exact .refl _

lemma core_normalizeTask (s : Sys T E) (p : T) : (normalizeTask K s p).core =
    s.core.setTask p fun t => setscheduler t schedNormal 0 := by
  have hdequeue : Keeps s (if (s.task p).onRq then dequeueTask K s p false else s) :=
    .ite (keeps_dequeueTask K s p false) (.refl s)
  rw [(quiet_normalizeTask (quietHooks_unit K) s p).core, core_change hdequeue (.refl _)]

/-- **A round writes one task.** -/
theorem core_normalizeThread (s : Sys T E) (p : T) :
    (normalizeThread K s p).core = s.core.setTask p normalizedTask := by
  have hkeep : normalizedTask (s.task p) = s.task p → s.core = s.core.setTask p normalizedTask := by
    intro hsame
    rw [Core.setTask, hsame, Function.update_eq_self]
  set s₁ := s.setSe p fun se => { se with execStart := 0 } with hs₁
  have hcore : s₁.core = s.core := rfl
  rw [normalizeThread]
  cases hmm : (s.task p).hasMm with
  | false =>
      refine hkeep ?_
      rw [normalizedTask, hmm]
      rfl
  | true =>
      simp only [Bool.not_true, Bool.false_eq_true, if_false, ← hs₁, Sys.task, hcore, hmm, and_true]
      cases hrt : rtPrio (s.core.task p).prio with
      | true =>
          rw [if_neg (by simp), core_normalizeTask, hcore]
          refine Core.setTask_eq ?_
          rw [normalizedTask, hmm, hrt]
          rfl
      | false =>
          rw [if_pos (by simp)]
          by_cases hnice : prioToNice (s.core.task p).staticPrio < 0
          · have hout :
                ¬(prioToNice (s₁.task p).staticPrio = 0 ∨ (0 : ℤ) < -20 ∨ (0 : ℤ) > 19) := by
              rw [Sys.task, hcore]
              omega
            rw [if_pos hnice, core_setUserNice hout, hcore]
            refine Core.setTask_eq ?_
            rw [normalizedTask, hmm, hrt, if_pos hnice]
            rfl
          · rw [if_neg hnice, hcore]
            refine hkeep ?_
            rw [normalizedTask, hmm, Sys.task, hrt, if_neg hnice]
            rfl

/-- **The loop writes each thread once.** -/
theorem task_normalizeRtTasks : ∀ (threads : List T) (s : Sys T E), threads.Nodup → ∀ p,
    (normalizeRtTasks K threads s).task p =
      if p ∈ threads then normalizedTask (s.task p) else s.task p
  | [], s, _, p => rfl
  | q :: threads, s, hnodup, p => by
      rcases List.nodup_cons.mp hnodup with ⟨hq, hrest⟩
      have hloop : (normalizeRtTasks K (q :: threads) s).task p =
          if p ∈ threads then normalizedTask ((normalizeThread K s q).task p)
          else (normalizeThread K s q).task p :=
        task_normalizeRtTasks threads (normalizeThread K s q) hrest p
      rw [hloop, Sys.task, core_normalizeThread]
      rcases eq_or_ne p q with rfl | hne
      · rw [if_neg hq, if_pos List.mem_cons_self, Core.setTask_self]
      · rw [Core.setTask_of_ne _ hne]
        simp only [List.mem_cons, hne, false_or]

/-! ## The queues -/

lemma Consistent.normalizeThread (hK : Laws K queued) (h : Consistent K queued s wrr)
    (hp : p ∈ s.core.tasklist) : ∃ wrr', Stays K queued p s (normalizeThread K s p) wrr wrr' := by
  have hstart := h.quiet (quiet_setSe s p fun se => { se with execStart := 0 }) p
  have hnormal : (Sched.setscheduler (s.task p) schedNormal 0).Valid :=
    valid_setscheduler (h.core.valid p).toInRange ⟨le_rfl, by decide⟩
  rw [Sched.normalizeThread]
  dsimp only
  split_ifs
  · exact ⟨wrr, .refl h p⟩
  · rcases hstart.consistent.setUserNice hK (hstart.tasklist p hp) 0 with ⟨wrr', hnice⟩
    exact ⟨wrr', hstart.trans hnice⟩
  · exact ⟨wrr, hstart⟩
  · rcases hstart.consistent.change hK (hstart.tasklist p hp)
      (f := fun t => Sched.setscheduler t schedNormal 0) hnormal
      (setscheduler_schedClass_ne_idle _ _ _) (setscheduler_onRq _ _ _) (.refl _) (.refl _) false
      (fun _ => rfl) with ⟨wrr', hchange⟩
    exact ⟨wrr', (hstart.trans hchange).trans
      (hchange.consistent.quiet (quiet_normalizeTask hK.toQuietHooks _ p) p)⟩

/-- The loop keeps tasks, queues and counters together. -/
theorem Consistent.normalizeRtTasks (hK : Laws K queued) :
    ∀ (threads : List T) {s : Sys T E} {wrr : List T}, Consistent K queued s wrr →
      (∀ p ∈ threads, p ∈ s.core.tasklist) →
      ∃ wrr', Consistent K queued (normalizeRtTasks K threads s) wrr'
  | [], s, wrr, h, _ => ⟨wrr, h⟩
  | p :: threads, s, wrr, h, hlisted => by
      rcases h.normalizeThread hK (hlisted p List.mem_cons_self) with ⟨wrr₁, hround⟩
      exact hround.consistent.normalizeRtTasks hK threads fun q hq =>
        hround.tasklist q (hlisted q (List.mem_cons_of_mem p hq))

/-- As many tasks are on the run queue as before. -/
lemma Consistent.nrRunning_eq (h : Consistent K queued s wrr) (h' : Consistent K queued s' wrr')
    (hon : ∀ p, (s'.task p).onRq = (s.task p).onRq) :
    s'.queues.nrRunning = s.queues.nrRunning := by
  rcases h.layout.nr with ⟨P, hP, hnr⟩
  rcases h'.layout.nr with ⟨P', hP', hnr'⟩
  have hsame : P' = P := by
    ext p
    rw [hP, hP', Core.place_ne_off_iff, Core.place_ne_off_iff, hon]
  rw [hnr, hnr', hsame]

/-- The task is in one of the queues, and there once: those of the WRR and of the RT class in
memory, or those of the other classes. -/
def QueuedOnce (queued : E → SchedClass → Finset T) (s : Sys T E) (p : T) : Prop :=
  ∃ (wrr : List T) (rt : ℕ → List T), WrrQueue s wrr ∧ (∀ i : ℕ, RtQueue i s (rt i)) ∧
    wrr.count p + ∑ i ∈ Finset.range maxRtPrio.toNat, (rt i).count p +
      forEachClass.countP (fun c => p ∈ queued s.other c) = 1

/-- A task that is not off the queue is queued once. -/
theorem Layout.queuedOnce {place : T → Place} (h : Layout queued s place wrr)
    (hon : place p ≠ .off) : QueuedOnce queued s p := by
  rcases h.sound with ⟨rt, hs, hmem⟩
  have hrtQueue : ∀ i : ℕ, RtQueue i s (rt i) := by
    intro i
    have hvisits := hs.represents.visits (.queue i)
    rwa [queueLists, List.map_map] at hvisits
  refine ⟨wrr, fun i => rt i, h.wrrQueue, hrtQueue, ?_⟩
  simp only [h.wrr_nodup.count, (hs.rt_nodup _).count, h.mem_wrr, hmem, h.mem_other]
  cases hp : place p with
  | off => exact absurd hp hon
  | wrr => simp
  | other c => cases c <;> simp [forEachClass]
  | rt i =>
      have hne : rt i ≠ [] := List.ne_nil_of_mem ((hmem p i).mpr hp)
      rcases Int.eq_ofNat_of_zero_le (hs.range i hne).1 with ⟨n, rfl⟩
      have hn : n ∈ Finset.range maxRtPrio.toNat := by
        have hlt : (n : ℤ) < 100 := (hs.range n hne).2
        rw [Finset.mem_range]
        show n < 100
        omega
      simp only [Place.rt.injEq, Nat.cast_inj, Finset.sum_ite_eq, if_pos hn]
      simp

/-- **The loop takes no task off the run queue**, puts none there, and leaves each in one queue. -/
theorem normalizeRtTasks_queued (hK : Laws K queued) (h : Consistent K queued s wrr)
    (hnodup : threads.Nodup) (hthreads : ∀ p ∈ threads, p ∈ s.core.tasklist) :
    (∀ p, (s.task p).onRq = true → ((normalizeRtTasks K threads s).task p).onRq = true ∧
      QueuedOnce queued (normalizeRtTasks K threads s) p) ∧
    (normalizeRtTasks K threads s).queues.nrRunning = s.queues.nrRunning := by
  rcases h.normalizeRtTasks hK threads hthreads with ⟨wrr', h'⟩
  have hon : ∀ p, ((normalizeRtTasks K threads s).task p).onRq = (s.task p).onRq := by
    intro p
    rw [task_normalizeRtTasks threads s hnodup]
    split_ifs
    · exact normalizedTask_onRq _
    · rfl
  refine ⟨fun p hp => ?_, h.nrRunning_eq h' hon⟩
  have hp' := (hon p).trans hp
  exact ⟨hp', h'.layout.queuedOnce ((Core.place_ne_off_iff _ p).mpr hp')⟩

/-! ## Tasks of the stop class -/

/-- The stop task and its children are real-time tasks. -/
def TaskStruct.StopRt (t : TaskStruct) : Prop :=
  t.schedClass = .stop → rtPrio t.prio = true ∧ rtPolicy t.policy = true

lemma TaskStruct.StopRt.congr {t t' : TaskStruct} (h : t.StopRt)
    (hclass : t'.schedClass = t.schedClass) (hprio : t'.prio = t.prio)
    (hpolicy : t'.policy = t.policy) : t'.StopRt := by
  rw [StopRt, hclass, hprio, hpolicy]
  exact h

lemma stopRt_forkedTask {t : TaskStruct} (h : t.StopRt) (hrange : t.InRange) :
    (forkedTask t).StopRt := by
  intro hclass
  rw [(forkedTask_fields t).1, (forkedTask_fields t).2.2.2.1]
  rw [forkedTask_eq] at hclass
  cases hrt : rtPrio (copiedTask t).prio with
  | false =>
      rw [hrt] at hclass
      exact SchedClass.noConfusion hclass
  | true =>
      cases hreset : t.schedResetOnFork with
      | true =>
          rw [(copiedTask_of_reset hrange hreset).1] at hrt
          exact Bool.noConfusion hrt
      | false =>
          rw [hrt, copiedTask_of_not_reset hreset] at hclass
          refine ⟨rfl, ?_⟩
          rw [copiedTask_of_not_reset hreset]
          exact (h hclass).2

/-- No other operation lets a task into the class of the stop task. -/
theorem Writes.stopRt {op : Op T} {c : Core T} (hwrites : Writes s op c)
    (hrange : ∀ p, (s.task p).InRange) (h : ∀ p, (s.task p).StopRt) (p : T) :
    (c.task p).StopRt := by
  have hparams : SameParams s.core c → (c.task p).StopRt := fun hsame =>
    (h p).congr (congrArg TaskStruct.schedClass (hsame.task p) :)
      (congrArg TaskStruct.prio (hsame.task p) :) (congrArg TaskStruct.policy (hsame.task p) :)
  rcases hwrites with
    ⟨hsame, -⟩ | ⟨hsame, -⟩ | _ | ⟨-, -⟩ | ⟨-, hrt⟩ | _ | _ | hwrr
  · exact hparams hsame.toSameParams
  · exact hparams hsame
  · exact Core.forall_setTask h (f := fun _ => forkedTask _) (stopRt_forkedTask (h _) (hrange _)) p
  · refine Core.forall_setTask h (fun hclass => ?_) p
    rw [setscheduler_schedClass] at hclass
    split_ifs at hclass
  · refine Core.forall_setTask h (fun hclass => ?_) p
    rw [renicedTask_schedClass] at hclass
    rw [(h _ hclass).2] at hrt
    exact Bool.noConfusion hrt
  · exact Core.forall_setTask h ((h _).congr rfl rfl rfl) p
  · refine Core.forall_setTask h (fun hclass => ?_) p
    rw [boostedTask] at hclass
    split_ifs at hclass
  · refine Core.forall_setTask h (fun hclass => ?_) p
    have hstop : (s.task s.core.curr).schedClass = .stop := hclass
    rw [hwrr] at hstop
    exact SchedClass.noConfusion hstop

lemma stopRt_init (boot : Boot T) (p : T) : ((init K boot).task p).StopRt := by
  rcases init_task (K := K) boot p with ⟨htask, -⟩ | htask | htask
  · rw [htask]
    exact fun hclass => SchedClass.noConfusion hclass
  · rw [htask]
    exact fun _ => ⟨show rtPrio 0 = true by decide, show rtPolicy schedFifo = true by decide⟩
  · rw [htask]
    exact fun hclass => SchedClass.noConfusion hclass

/-- **The tasks of the stop class are real-time tasks**, in every reachable state. -/
theorem Reachable.stopRt (hK : Laws K queued) {boot : Boot T} (h : Reachable K boot s) (p : T) :
    (s.task p).StopRt :=
  Run.forall_task hK (fun _ _ hop => hop) (stopRt_init boot)
    (fun _ hwrites hvalid hstop => hwrites.stopRt (fun p => (hvalid p).toInRange) hstop) h p

/-! ## The postcondition -/

/-- **The states in which `normalize_rt_tasks` does what it is for**: those in which every user task
of the WRR class has a real-time priority.  In the others such a task stays where it is. -/
theorem normalize_rt_tasks_iff (hK : Laws K queued) {boot : Boot T}
    (h : Reachable K boot s) (hnodup : threads.Nodup)
    (hthreads : ∀ p, p ∈ threads ↔ p ∈ s.core.tasklist)
    (hpi : ∀ p ∈ s.core.tasklist, (s.task p).hasMm = true → (s.task p).topPiWaiter = none) :
    ((∀ p ∈ s.core.tasklist, (s.task p).hasMm = true →
        ((normalizeRtTasks K threads s).task p).schedClass.rank ≤ SchedClass.fair.rank) ∧
      (∀ p, (s.task p).onRq = true → ((normalizeRtTasks K threads s).task p).onRq = true ∧
        QueuedOnce queued (normalizeRtTasks K threads s) p) ∧
      (normalizeRtTasks K threads s).queues.nrRunning = s.queues.nrRunning) ↔
    ∀ p ∈ s.core.tasklist, (s.task p).hasMm = true → (s.task p).schedClass = .wrr →
      rtPrio (s.task p).prio = true := by
  rcases h.inv hK with ⟨wrr, hinv⟩
  have hqueued := normalizeRtTasks_queued hK hinv.toConsistent hnodup fun p hp =>
    (hthreads p).mp hp
  rw [and_iff_left hqueued]
  refine forall_congr' fun p => forall_congr' fun hp => forall_congr' fun hmm => ?_
  rw [task_normalizeRtTasks threads s hnodup, if_pos ((hthreads p).mpr hp)]
  exact normalizedTask_rank_iff (hinv.core.valid p) hmm (hpi p hp hmm) fun hc =>
    (h.stopRt hK p hc).1

end

/-- A user task of the WRR class is still one after the loop. -/
theorem normalize_rt_tasks_wrr :
    ∃ s, Reachable (fifoKernel smallConfig) smallBoot s ∧
      s.core.tasklist = [2, 1] ∧ (∀ p ∈ s.core.tasklist, (s.task p).topPiWaiter = none) ∧
      (s.task 2).hasMm = true ∧
      SchedClass.fair.rank <
        ((normalizeRtTasks (fifoKernel smallConfig) [2, 1] s).task 2).schedClass.rank := by
  have hrun : ∃ s, runOps (fifoKernel smallConfig) Allowed
      (init (fifoKernel smallConfig) smallBoot)
      [.fork 2, .wakeUpNewTask 2, .setscheduler 2 schedWrr 0 false, .writeField 2 (.mm true)] =
        some s ∧
        s.core.tasklist = [2, 1] ∧ (∀ p ∈ s.core.tasklist, (s.task p).topPiWaiter = none) ∧
        (s.task 2).hasMm = true ∧ SchedClass.fair.rank <
          ((normalizeRtTasks (fifoKernel smallConfig) [2, 1] s).task 2).schedClass.rank :=
    exists_of_any (by decide)
  rcases hrun with ⟨s, hs, hstill⟩
  exact ⟨s, Run.runOps _ .init hs, hstill⟩

/-- The loop takes a running FIFO task of a user back to the fair class. -/
theorem normalize_rt_tasks_fifo :
    ∃ s, Reachable (fifoKernel smallConfig) smallBoot s ∧
      (s.core.curr = 2 ∧ (s.task 2).schedClass = .rt) ∧
      (∀ p ∈ s.core.tasklist, (s.task p).hasMm = true →
        ((normalizeRtTasks (fifoKernel smallConfig) [2, 1] s).task p).schedClass.rank ≤
          SchedClass.fair.rank) ∧
      (∀ p, (s.task p).onRq = true →
        ((normalizeRtTasks (fifoKernel smallConfig) [2, 1] s).task p).onRq = true ∧
        QueuedOnce fifoQueued (normalizeRtTasks (fifoKernel smallConfig) [2, 1] s) p) ∧
      (normalizeRtTasks (fifoKernel smallConfig) [2, 1] s).queues.nrRunning =
        s.queues.nrRunning := by
  have hrun : ∃ s, runOps (fifoKernel smallConfig) Allowed
      (init (fifoKernel smallConfig) smallBoot)
      [.fork 2, .wakeUpNewTask 2, .schedule ⟨false, false, none⟩,
        .setscheduler 2 schedFifo 10 false, .writeField 2 (.mm true)] = some s ∧
        (s.core.curr = 2 ∧ (s.task 2).schedClass = .rt) ∧ s.core.tasklist = [2, 1] ∧
        (∀ p ∈ s.core.tasklist, (s.task p).hasMm = true → (s.task p).topPiWaiter = none) ∧
        ∀ p ∈ s.core.tasklist, (s.task p).hasMm = true → (s.task p).schedClass = .wrr →
          rtPrio (s.task p).prio = true := exists_of_any (by decide)
  rcases hrun with ⟨s, hs, hcurr, hlist, hpi, hprio⟩
  have hreach : Reachable (fifoKernel smallConfig) smallBoot s := Run.runOps _ .init hs
  refine ⟨s, hreach, hcurr, ?_⟩
  exact (normalize_rt_tasks_iff (fifoKernel_laws smallConfig) hreach (by decide)
    (fun p => by rw [hlist]) hpi).mpr hprio

end Sched
