import OsPrj.Sched.Writes

/-!
# Preemption

A queued task of a higher class than the current one must be noticed: `TIF_NEED_RESCHED` of the
current task is set.  Waking looks after that with `check_preempt_curr`, a change of policy with
`switched_to`; but `switched_to_wrr` is empty.

* `Noticed` — no queued task of a higher class waits unnoticed.
* `Unboosted` — without priority inheritance, classes below RT go with priorities below RT.
* `NoticesWrr` — when a change to the WRR policy needs no flag.
* `higher_class_noticed` — **then every task is noticed, over whole runs**.
-/

namespace Sched

variable {T E : Type} [DecidableEq T]

/-! ## Classes in order -/

lemma classPreempts_eq (c d : SchedClass) :
    classPreempts c d forEachClass = decide (d.rank < c.rank) := by
  cases c <;> cases d <;> rfl

lemma mem_of_rank_lt {c d : SchedClass} {pre suf : List SchedClass}
    (hsplit : forEachClass = pre ++ c :: suf) (hlt : c.rank < d.rank) : d ∈ pre := by
  have hsorted : forEachClass.Pairwise (fun a b => b.rank < a.rank) := by decide
  have hmem : d ∈ forEachClass := by cases d <;> decide
  rw [hsplit] at hsorted hmem
  rcases List.mem_append.mp hmem with hpre | hrest
  · exact hpre
  · rcases List.mem_cons.mp hrest with rfl | hsuf
    · exact absurd hlt (lt_irrefl _)
    · have hgt := (List.pairwise_cons.mp (List.pairwise_append.mp hsorted).2.1).1 d hsuf
      exact absurd hlt (not_lt.mpr hgt.le)

/-! ## Priorities without inheritance -/

/-- A task below the RT class has no real-time priority, neither for now nor when it forks. -/
structure TaskStruct.Unboosted (t : TaskStruct) : Prop where
  topPiWaiter : t.topPiWaiter = none
  prio : t.schedClass ≠ .stop → t.schedClass ≠ .rt →
    maxRtPrio ≤ t.prio ∧ maxRtPrio ≤ t.normalPrio

lemma le_of_not_rtPrio {prio : ℤ} (h : rtPrio prio = false) : maxRtPrio ≤ prio :=
  not_lt.mp (of_decide_eq_false h)

lemma copiedTask_topPiWaiter (t : TaskStruct) : (copiedTask t).topPiWaiter = none := by
  rw [copiedTask, resetTask]
  split_ifs <;> simp

/-- A child starts at its normal priority. -/
lemma copiedTask_prio (t : TaskStruct) : (copiedTask t).prio = (copiedTask t).normalPrio := by
  rw [copiedTask, resetTask]
  split_ifs <;> simp

lemma unboosted_forkedTask {t : TaskStruct} (h : t.Unboosted) (hrange : t.InRange)
    (hstop : t.schedClass ≠ .stop) :
    (forkedTask t).Unboosted ∧ (forkedTask t).schedClass ≠ .stop := by
  have hclass : (copiedTask t).schedClass = t.schedClass := by
    rw [copiedTask, resetTask_schedClass]
  rw [forkedTask_eq]
  cases hrt : rtPrio (copiedTask t).prio with
  | false =>
      have hprio := le_of_not_rtPrio hrt
      exact ⟨⟨copiedTask_topPiWaiter t, fun _ _ => ⟨hprio, copiedTask_prio t ▸ hprio⟩⟩, by simp⟩
  | true =>
      refine ⟨⟨copiedTask_topPiWaiter t, fun _ hne => ?_⟩, by simpa [hclass] using hstop⟩
      have hnormal := (h.prio hstop (by simpa [hclass] using hne)).2
      cases hreset : t.schedResetOnFork with
      | true =>
          rw [(copiedTask_of_reset hrange hreset).1] at hrt
          exact Bool.noConfusion hrt
      | false =>
          rw [copiedTask_of_not_reset hreset, not_rtPrio hnormal] at hrt
          exact Bool.noConfusion hrt

lemma unboosted_setscheduler {t : TaskStruct} (h : t.topPiWaiter = none) (hrange : t.InRange)
    (policy prio : ℤ) :
    (setscheduler t policy prio).Unboosted ∧ (setscheduler t policy prio).schedClass ≠ .stop := by
  have hprio : (setscheduler t policy prio).prio = (setscheduler t policy prio).normalPrio := by
    rw [setscheduler_prio, rtMutexGetprio, setscheduler_topPiWaiter, h]
  constructor
  · refine ⟨(setscheduler_topPiWaiter t policy prio).trans h, fun _ hne => ?_⟩
    rw [setscheduler_schedClass] at hne
    rw [← hprio, and_self]
    by_cases hwrr : policy = schedWrr
    · rw [hprio, setscheduler_normalPrio, normalPrio, hwrr, rtPolicy_schedWrr]
      exact hrange.staticPrio.1
    · refine le_of_not_rtPrio (Bool.eq_false_of_not_eq_true fun hrt => hne ?_)
      exact (if_neg hwrr).trans (if_pos hrt)
  · rw [setscheduler_schedClass]
    split_ifs <;> simp

lemma unboosted_renicedTask {t : TaskStruct} (h : t.Unboosted) (hrange : t.InRange) {nice : ℤ}
    (hnice : -20 ≤ nice ∧ nice ≤ 19) (hrt : rtPolicy t.policy = false) :
    (renicedTask t nice).Unboosted := by
  have hstatic := (hrange.setStaticPrio hnice).staticPrio.1
  refine ⟨(renicedTask_topPiWaiter t nice).trans h.topPiWaiter, fun hstop hne => ?_⟩
  rw [renicedTask_schedClass] at hstop hne
  rw [renicedTask_prio nice hrt, renicedTask_normalPrio nice hrt,
    not_rtPrio (h.prio hstop hne).1]
  exact ⟨hstatic, hstatic⟩

lemma unboosted_incPrioWrr {t : TaskStruct} (h : t.Unboosted) : (incPrioWrr t).Unboosted := by
  refine ⟨h.topPiWaiter, fun hstop hne => ?_⟩
  rcases h.prio hstop hne with ⟨hprio, hnormal⟩
  exact ⟨le_incPrioWrr hprio, hnormal⟩

/-- Priorities without inheritance; the stop task is alone in its class. -/
structure Unboosted (c : Core T) : Prop where
  task : ∀ p, (c.task p).Unboosted
  stop : ∀ p, (c.task p).schedClass = .stop → c.stop = some p

section

variable {K : Kernel T E} {queued : E → SchedClass → Finset T} {cfg : Config} {c c' : Core T}
  {s s' : Sys T E} {wrr : List T} {p : T}

omit [DecidableEq T] in
lemma Unboosted.sameParams (h : Unboosted c) (hsame : SameParams c c') : Unboosted c' := by
  have hclass : ∀ p, (c'.task p).schedClass = (c.task p).schedClass := fun p =>
    congrArg (fun t => t.schedClass) (hsame.task p)
  have hprio : ∀ p, (c'.task p).prio = (c.task p).prio := fun p =>
    congrArg (fun t => t.prio) (hsame.task p)
  have hnormal : ∀ p, (c'.task p).normalPrio = (c.task p).normalPrio := fun p =>
    congrArg (fun t => t.normalPrio) (hsame.task p)
  have hwaiter : ∀ p, (c'.task p).topPiWaiter = (c.task p).topPiWaiter := fun p =>
    congrArg (fun t => t.topPiWaiter) (hsame.task p)
  refine ⟨fun p => ⟨(hwaiter p).trans (h.task p).topPiWaiter, ?_⟩, ?_⟩
  · rw [hclass, hprio, hnormal]
    exact (h.task p).prio
  · intro p
    rw [hclass, hsame.stop]
    exact h.stop p

lemma Unboosted.setTask (h : Unboosted c) {f : TaskStruct → TaskStruct}
    (hf : (f (c.task p)).Unboosted)
    (hstop : (f (c.task p)).schedClass = .stop → c.stop = some p) :
    Unboosted (c.setTask p f) := by
  constructor
  · intro q
    rcases eq_or_ne q p with rfl | hne
    · rwa [Core.setTask_self]
    · rw [Core.setTask_of_ne _ hne]
      exact h.task q
  · intro q
    rcases eq_or_ne q p with rfl | hne
    · rwa [Core.setTask_self]
    · rw [Core.setTask_of_ne _ hne]
      exact h.stop q

lemma Unboosted.fork (h : Unboosted c) (hf : (forkedTask (c.task c.curr)).Unboosted)
    (hstop : (forkedTask (c.task c.curr)).schedClass ≠ .stop) : Unboosted (c.fork p) := by
  have hset : Unboosted (c.setTask p fun _ => forkedTask (c.task c.curr)) :=
    h.setTask hf fun hclass => absurd hclass hstop
  exact ⟨hset.task, hset.stop⟩

/-- The operations without priority inheritance; the stop task forks no children. -/
def Op.Plain (s : Sys T E) : Op T → Prop
  | .fork _ => s.core.stop ≠ some s.core.curr
  | .setTopPiWaiter _ _ | .rtMutexSetprio _ _ => False
  | _ => True

/-- **Without priority inheritance no priority is a real-time one out of its class.** -/
theorem Unboosted.writes (h : Unboosted s.core) (hcore : CoreInv cfg s.core) {op : Op T}
    (hplain : op.Plain s) (hwrites : Writes s op c) : Unboosted c := by
  have hrange := fun p => (hcore.valid p).toInRange
  cases hwrites with
  | same hsame => exact h.sameParams hsame.toSameParams
  | moves hsame => exact h.sameParams hsame
  | fork =>
      have hforked := unboosted_forkedTask (h.task s.core.curr) (hrange _)
        fun hclass => hplain (h.stop _ hclass)
      exact h.fork hforked.1 hforked.2
  | @setscheduler p policy prio resetOnFork hstop hsame =>
      have hset := unboosted_setscheduler (t := { s.task p with schedResetOnFork := resetOnFork })
        (h.task p).topPiWaiter ((hrange p).setResetOnFork resetOnFork) policy prio
      exact h.setTask hset.1 fun hclass => absurd hclass hset.2
  | @setUserNice p nice hnice hrt =>
      refine h.setTask (unboosted_renicedTask (h.task p) (hrange p) hnice hrt) fun hclass => ?_
      rw [renicedTask_schedClass] at hclass
      exact h.stop p hclass
  | setTopPiWaiter => exact hplain.elim
  | rtMutexSetprio => exact hplain.elim
  | schedulerTick => exact h.setTask (unboosted_incPrioWrr (h.task _)) fun hstop => h.stop _ hstop

/-! ## Noticed tasks -/

/-- No queued task of a higher class waits unnoticed. -/
def Noticed (s : Sys T E) : Prop := ∀ p, (s.task p).onRq = true →
  (s.task s.core.curr).schedClass.rank < (s.task p).schedClass.rank →
  s.needResched s.core.curr = true

/-- No task but `p`. -/
def NoticedBut (p : T) (s : Sys T E) : Prop := ∀ q, q ≠ p → (s.task q).onRq = true →
  (s.task s.core.curr).schedClass.rank < (s.task q).schedClass.rank →
  s.needResched s.core.curr = true

/-- What is assumed of `switched_to_fair`: it reschedules a running task, and calls
`check_preempt_curr` for a queued one. -/
structure FairSwitchedTo (K : Kernel T E) : Prop where
  running : ∀ s p, (s.task p).onRq = true → s.core.curr = p →
    (K.switchedToOther .fair s p).resched = true
  queued : ∀ s p, (s.task p).onRq = true → s.core.curr ≠ p →
    classPreempts (s.task p).schedClass (s.task s.core.curr).schedClass forEachClass = true →
    (K.switchedToOther .fair s p).resched = true

omit [DecidableEq T] in
lemma noticed_of_flag (h : s.needResched s.core.curr = true) : Noticed s := fun _ _ _ => h

omit [DecidableEq T] in
/-- Steps in which no task joins the queue and no class of a queued task changes. -/
lemma Noticed.congr (h : Noticed s) (hcurr : s'.core.curr = s.core.curr)
    (hclass : (s'.task s.core.curr).schedClass = (s.task s.core.curr).schedClass)
    (htask : ∀ p, (s'.task p).onRq = true →
      (s.task p).onRq = true ∧ (s'.task p).schedClass = (s.task p).schedClass)
    (hflag : s.needResched s.core.curr = true → s'.needResched s.core.curr = true) :
    Noticed s' := by
  intro p hon hlt
  rcases htask p hon with ⟨hon', hclass'⟩
  rw [hcurr, hclass, hclass'] at hlt
  rw [hcurr]
  exact hflag (h p hon' hlt)

/-- What a write leaves alone. -/
lemma Core.setTask_congr {X : Type} (c : Core T) {f : TaskStruct → TaskStruct} (g : TaskStruct → X)
    (hg : g (f (c.task p)) = g (c.task p)) (q : T) : g ((c.setTask p f).task q) = g (c.task q) := by
  rcases eq_or_ne q p with rfl | hne
  · rw [Core.setTask_self, hg]
  · rw [Core.setTask_of_ne _ hne]

/-! ### Waking -/

lemma Sys.reschedTask_self (s : Sys T E) (p : T) : (s.reschedTask p).needResched p = true :=
  Function.update_self _ _ _

/-- `check_preempt_curr` sets the flag for a task of a higher class. -/
lemma needResched_checkPreemptCurr (K : Kernel T E)
    (hlt : (s.task s.core.curr).schedClass.rank < (s.task p).schedClass.rank) :
    (checkPreemptCurr K s p).needResched s.core.curr = true := by
  have hne : (s.task p).schedClass ≠ (s.task s.core.curr).schedClass := by
    intro heq
    rw [heq] at hlt
    exact lt_irrefl _ hlt
  have hpreempts : preemptByClass K s p = s.reschedTask s.core.curr := by
    rw [preemptByClass, if_neg hne, classPreempts_eq, if_pos (decide_eq_true hlt)]
  rw [checkPreemptCurr, hpreempts]
  split_ifs
  · exact s.reschedTask_self _
  · exact s.reschedTask_self _

lemma NoticedBut.checkPreemptCurr (K : Kernel T E) (h : NoticedBut p s) :
    Noticed (checkPreemptCurr K s p) := by
  have hkeeps := (quiet_checkPreemptCurr (quietHooks_unit K) s p).toKeeps
  intro q hon hlt
  rw [hkeeps.task, hkeeps.task, hkeeps.core] at hlt
  rw [hkeeps.task] at hon
  rw [hkeeps.core]
  rcases eq_or_ne q p with rfl | hne
  · exact needResched_checkPreemptCurr K hlt
  · exact hkeeps.resched _ (h q hne hon hlt)

lemma Noticed.activate (K : Kernel T E) (h : Noticed s) (flags : EnqueueFlags) :
    NoticedBut p ((activateTask K s p flags).setTask p fun t => { t with onRq := true }) := by
  have hkeeps := keeps_activateTask K s p flags
  have hcore := hkeeps.setTask_core p fun t => { t with onRq := true }
  intro q hne hon hlt
  rw [Sys.task, Sys.task, hcore] at hlt
  rw [Sys.task, hcore, Core.setTask_of_ne _ hne] at hon
  have hclass := s.core.setTask_congr (p := p) (f := fun t => { t with onRq := true })
    (fun t => t.schedClass) rfl
  rw [hclass, hclass] at hlt
  rw [hcore]
  exact hkeeps.resched _ (h q hon hlt)

lemma Noticed.setTask (h : Noticed s) {f : TaskStruct → TaskStruct}
    (hon : (f (s.task p)).onRq = (s.task p).onRq)
    (hclass : (f (s.task p)).schedClass = (s.task p).schedClass) : Noticed (s.setTask p f) := by
  have hon' := s.core.setTask_congr (fun t => t.onRq) hon
  have hclass' := s.core.setTask_congr (fun t => t.schedClass) hclass
  refine h.congr rfl (hclass' _) (fun q hq => ⟨?_, hclass' q⟩) id
  rwa [← hon' q]

lemma NoticedBut.ttwuDoWakeup (K : Kernel T E) (h : NoticedBut p s) :
    Noticed (ttwuDoWakeup K s p) :=
  (h.checkPreemptCurr K).setTask rfl rfl

omit [DecidableEq T] in
lemma Noticed.but (h : Noticed s) (p : T) : NoticedBut p s := fun q _ => h q

theorem Noticed.tryToWakeUp (K : Kernel T E) (h : Noticed s) (state : ℕ) :
    Noticed (tryToWakeUp K s p state) := by
  rw [Sched.tryToWakeUp]
  split_ifs
  · exact h
  · exact (h.but p).ttwuDoWakeup K
  · exact (h.activate K _).ttwuDoWakeup K

theorem Noticed.wakeUpNewTask (K : Kernel T E) (h : Noticed s) : Noticed (wakeUpNewTask K s p) :=
  (h.activate K _).checkPreemptCurr K

/-! ### schedule -/

/-- **`__schedule` leaves no queued task of a higher class.** -/
theorem noticed_schedule (hK : Laws K queued) (h : Inv K queued s wrr) {a : ScheduleArgs T}
    (ha : ∀ p ∈ a.toWakeup, p ∈ s.core.tasklist) (hstep : schedule K s a = .ok s')
    (hrt : s'.acct.rtThrottled = false) : Noticed s' := by
  rcases h.schedule hK a ha with
    ⟨s₁, wrr', pre, c, suf, next, s₂, hmoves, -, hsplit, hdecline, hoffer, hschedule, -⟩
  rw [hschedule] at hstep
  obtain rfl := Except.ok.inj hstep
  rcases hmoves.consistent.offered hK hoffer with ⟨hpicked, hclass, -⟩
  have hcore : s₂.core = s₁.core := hpicked.quiet.core
  intro q hon hlt
  have hon' : (s₁.task q).onRq = true := by
    rw [Sys.task, ← hcore]
    exact hon
  have hlt' : (s₁.task next).schedClass.rank < (s₁.task q).schedClass.rank := by
    rw [Sys.task, Sys.task, ← hcore]
    exact hlt
  rw [hclass] at hlt'
  have hno := hdecline _ (mem_of_rank_lt hsplit hlt')
  rcases hmoves.consistent.layout.classPickNextTask hK hmoves.consistent.wrrThrottled
    (s₁.task q).schedClass with ⟨-, -, hnone⟩ | ⟨p', s'', hoffer', -⟩
  · have hidle := hmoves.consistent.core.schedClass_ne_idle (hmoves.consistent.core.listed q hon')
    have hplace : (s₁.core.place q).schedClass = some (s₁.task q).schedClass := by
      rw [Core.place_of_on hon', TaskStruct.spot_schedClass _ hidle]
    have hthrottled : s₂.acct.rtThrottled = true := hpicked.quiet.rtThrottled (hnone q hplace).2
    have hunthrottled : s₂.acct.rtThrottled = false := hrt
    rw [hunthrottled] at hthrottled
    exact Bool.noConfusion hthrottled
  · rw [Declines, hoffer'] at hno
    exact absurd hno (by simp)

/-! ### __sched_setscheduler -/

lemma needResched_applyHook (s : Sys T E) {r : HookResult T E} (h : r.resched = true) :
    (s.applyHook r).needResched s.core.curr = true := by
  rw [Sys.applyHook, if_pos h]
  exact Function.update_self _ _ _

/-- `switched_to_fair`, for the current task. -/
lemma switchedTo_running (hfair : FairSwitchedTo K) (hon : (s.task p).onRq = true)
    (hcurr : s.core.curr = p) (hclass : (s.task p).schedClass = .fair) :
    (switchedTo K s p).needResched s.core.curr = true := by
  rw [switchedTo, hclass]
  exact needResched_applyHook s (hfair.running s p hon hcurr)

/-- `switched_to_fair` and `switched_to_rt`, for a task that waits. -/
lemma switchedTo_queued (hfair : FairSwitchedTo K) (hu : Unboosted s.core)
    (hcore : CoreInv cfg s.core) (hon : (s.task p).onRq = true) (hcurr : s.core.curr ≠ p)
    (hclass : (s.task p).schedClass = .fair ∨ (s.task p).schedClass = .rt)
    (hlt : (s.task s.core.curr).schedClass.rank < (s.task p).schedClass.rank) :
    (switchedTo K s p).needResched s.core.curr = true := by
  rw [switchedTo]
  rcases hclass with hclass | hclass
  · rw [hclass]
    refine needResched_applyHook s (hfair.queued s p hon hcurr ?_)
    rw [classPreempts_eq]
    exact decide_eq_true hlt
  · have hprio := (hcore.valid p).prio hclass
    rw [hclass] at hlt ⊢
    have hcurrPrio := ((hu.task s.core.curr).prio (by intro heq; simp [heq, SchedClass.rank] at hlt)
      (by intro heq; simp [heq] at hlt)).1
    show (switchedToRt s p).needResched s.core.curr = true
    rw [switchedToRt, if_pos (by simp [hon, hcurr]), if_pos (lt_of_lt_of_le hprio.2 hcurrPrio)]
    exact s.reschedTask_self _

lemma SchedClass.eq_stop_of_rank {c : SchedClass} (h : SchedClass.rt.rank < c.rank) :
    c = .stop := by
  cases c <;> simp_all [SchedClass.rank]

lemma SchedClass.eq_rt_of_rank {c : SchedClass} (h : SchedClass.wrr.rank < c.rank)
    (hstop : c ≠ .stop) : c = .rt := by
  cases c <;> simp_all [SchedClass.rank]

lemma SchedClass.eq_fair_of_rank {c : SchedClass} (h : c.rank < SchedClass.wrr.rank)
    (hidle : c ≠ .idle) : c = .fair := by
  cases c <;> simp_all [SchedClass.rank]

/-- Between `s` and `m` only the task `p` is rewritten; it stays on or off the run queue. -/
structure Reclassed (p : T) (s m : Sys T E) : Prop where
  curr : m.core.curr = s.core.curr
  task : ∀ q, q ≠ p → m.task q = s.task q
  onRq : (m.task p).onRq = (s.task p).onRq
  resched : s.needResched s.core.curr = true → m.needResched s.core.curr = true

variable {m m' : Sys T E}

omit [DecidableEq T] in
lemma Reclassed.keeps (h : Reclassed p s m) (hkeeps : Keeps m m') : Reclassed p s m' where
  curr := by rw [hkeeps.core, h.curr]
  task := fun q hne => (hkeeps.task q).trans (h.task q hne)
  onRq := by rw [hkeeps.task, h.onRq]
  resched := fun hflag => hkeeps.resched _ (h.resched hflag)

omit [DecidableEq T] in
lemma Reclassed.noticed_of_class_eq (hr : Reclassed p s m) (h : Noticed s)
    (hclass : (m.task p).schedClass = (s.task p).schedClass) : Noticed m := by
  have htask : ∀ q, (m.task q).onRq = (s.task q).onRq ∧
      (m.task q).schedClass = (s.task q).schedClass := by
    intro q
    rcases eq_or_ne q p with rfl | hne
    · exact ⟨hr.onRq, hclass⟩
    · rw [hr.task q hne]
      exact ⟨rfl, rfl⟩
  exact h.congr hr.curr (htask _).2 (fun q hq => ⟨(htask q).1 ▸ hq, (htask q).2⟩) hr.resched

/-- No queued task stands above the current one. -/
def NoneAbove (s : Sys T E) : Prop := ∀ q, (s.task q).onRq = true →
  (s.task q).schedClass.rank ≤ (s.task s.core.curr).schedClass.rank

/-- **The current task goes to another class**: `switched_to_fair` sets the flag, the RT class is
above all others, and the WRR class is right if no RT task waits. -/
lemma Reclassed.noticed_curr (hfair : FairSwitchedTo K) (hr : Reclassed p s m) (h : NoneAbove s)
    (hcurr : s.core.curr = p) (hon : (s.task p).onRq = true)
    (hstop : (s.task p).schedClass ≠ .stop)
    (hclass : (m.task p).schedClass = .wrr ∨ (m.task p).schedClass = .fair ∨
      (m.task p).schedClass = .rt)
    (hwrr : (m.task p).schedClass = .wrr → (s.task p).schedClass = .rt →
      ∀ q, q ≠ p → (s.task q).onRq = true → (s.task q).schedClass ≠ .rt) :
    Noticed (switchedTo K m p) := by
  have hto : Keeps m (switchedTo K m p) := (quiet_switchedTo (quietHooks_unit K) m p).toKeeps
  have hmcurr : m.core.curr = p := hr.curr.trans hcurr
  intro q hq hlt
  rw [hto.task] at hq
  rw [hto.task, hto.task, hto.core, hmcurr] at hlt
  have hne : q ≠ p := by
    rintro rfl
    exact lt_irrefl _ hlt
  rw [hr.task q hne] at hq hlt
  have hle := h q hq
  rw [hcurr] at hle
  rcases hclass with hwrr' | hfair' | hrt
  · rw [hwrr'] at hlt
    have hold := SchedClass.eq_rt_of_rank (hlt.trans_le hle) hstop
    rw [hold] at hle
    exact absurd (SchedClass.eq_rt_of_rank hlt (by rintro heq; simp [heq, SchedClass.rank] at hle))
      (hwrr hwrr' hold q hne hq)
  · rw [hto.core]
    exact switchedTo_running hfair (hr.onRq.trans hon) hmcurr hfair'
  · rw [hrt] at hlt
    exact absurd (SchedClass.eq_stop_of_rank (hlt.trans_le hle)) hstop

/-- **A waiting task goes to another class**: `switched_to_fair` and `switched_to_rt` set the flag
where it is wanted, and the WRR class is right if a fair task does not come to wait for another. -/
lemma Reclassed.noticed_queued (hfair : FairSwitchedTo K) (hr : Reclassed p s m) (h : NoneAbove s)
    (hu : Unboosted m.core) (hcore : CoreInv cfg m.core) (hcurr : s.core.curr ≠ p)
    (hidle : (s.task p).schedClass ≠ .idle)
    (hclass : (m.task p).schedClass = .wrr ∨ (m.task p).schedClass = .fair ∨
      (m.task p).schedClass = .rt)
    (hwrr : (m.task p).schedClass = .wrr → (s.task p).onRq = true →
      (s.task p).schedClass = .fair → (s.task s.core.curr).schedClass ≠ .fair) :
    Noticed (switchedTo K m p) := by
  have hto : Keeps m (switchedTo K m p) := (quiet_switchedTo (quietHooks_unit K) m p).toKeeps
  intro q hq hlt
  rw [hto.task] at hq
  rw [hto.task, hto.task, hto.core] at hlt
  rw [hto.core]
  rcases eq_or_ne q p with rfl | hne
  · have hon := hr.onRq.symm.trans hq
    rcases hclass with hwrr' | hother
    · rw [hr.curr, hr.task _ hcurr, hwrr'] at hlt
      have hle := h q hon
      have hold := SchedClass.eq_fair_of_rank (hle.trans_lt hlt) hidle
      rw [hold] at hle
      refine absurd (SchedClass.eq_fair_of_rank hlt ?_) (hwrr hwrr' hon hold)
      rintro heq
      simp [heq, SchedClass.rank] at hle
    · exact switchedTo_queued hfair hu hcore hq (hr.curr ▸ hcurr) hother hlt
  · rw [hr.curr, hr.task q hne, hr.task _ hcurr] at hlt
    rw [hr.task q hne] at hq
    exact absurd hlt (not_lt.mpr (h q hq))

/-- When moving `p` to the WRR class needs no flag. -/
def NeedsNoFlag (s : Sys T E) (p : T) : Prop :=
  s.needResched s.core.curr = true ∨
    (s.core.curr = p → (s.task p).schedClass = .rt →
      ∀ q, q ≠ p → (s.task q).onRq = true → (s.task q).schedClass ≠ .rt) ∧
    (s.core.curr ≠ p → (s.task p).onRq = true → (s.task p).schedClass = .fair →
      (s.task s.core.curr).schedClass ≠ .fair)

/-- `check_class_changed` after such a change. -/
theorem Reclassed.checkClassChanged (hfair : FairSwitchedTo K) (hr : Reclassed p s m)
    (h : Noticed s) (hu : Unboosted m.core) (hcore : CoreInv cfg m.core)
    (hcurrOn : s.core.curr = p → (s.task p).onRq = true) (hstop : (s.task p).schedClass ≠ .stop)
    (hidle : (s.task p).schedClass ≠ .idle)
    (hclass : (m.task p).schedClass = .wrr ∨ (m.task p).schedClass = .fair ∨
      (m.task p).schedClass = .rt)
    (hwrr : (m.task p).schedClass = .wrr → NeedsNoFlag s p) (oldprio : ℤ) :
    Noticed (checkClassChanged K m p (s.task p).schedClass oldprio) := by
  have hcheck : Keeps m (Sched.checkClassChanged K m p (s.task p).schedClass oldprio) :=
    (quiet_checkClassChanged (quietHooks_unit K) m p _ _).toKeeps
  by_cases hflag : s.needResched s.core.curr = true
  · refine noticed_of_flag ?_
    rw [hcheck.core, hr.curr]
    exact hcheck.resched _ (hr.resched hflag)
  by_cases hsame : (m.task p).schedClass = (s.task p).schedClass
  · exact (hr.keeps hcheck).noticed_of_class_eq h (by rw [hcheck.task, hsame])
  -- the hooks of the new class have the word
  have hnone : NoneAbove s := fun q hq => not_lt.mp fun hlt => hflag (h q hq hlt)
  have hfrom : Keeps m (switchedFrom K (s.task p).schedClass m p) :=
    (quiet_switchedFrom (quietHooks_unit K) _ m p).toKeeps
  rw [Sched.checkClassChanged, if_pos fun heq => hsame heq.symm]
  rw [← hfrom.task] at hclass hwrr
  have hneeds := fun hc => (hwrr hc).resolve_left hflag
  rcases eq_or_ne s.core.curr p with hcurr | hcurr
  · exact (hr.keeps hfrom).noticed_curr hfair hnone hcurr (hcurrOn hcurr) hstop hclass
      fun hc => (hneeds hc).1 hcurr
  · exact (hr.keeps hfrom).noticed_queued hfair hnone (hfrom.core ▸ hu) (hfrom.core ▸ hcore) hcurr
      hidle hclass fun hc => (hneeds hc).2 hcurr

/-- When an operation leaves no task unnoticed: a change to the WRR policy is asked to need no flag,
all other operations look after it. -/
def NoticesWrr (s : Sys T E) : Op T → Prop
  | .setscheduler p policy _ _ => policy = schedWrr →
      s.core.stop = some p ∨ (s.task p).policy = schedWrr ∨ NeedsNoFlag s p
  | _ => True

/-- **`__sched_setscheduler` notices every task**, but for changes to the WRR policy. -/
theorem Noticed.setscheduler (hK : Laws K queued) (hfair : FairSwitchedTo K)
    (hinv : Inv K queued s wrr) (hu : Unboosted s.core) (h : Noticed s)
    (hp : p ∈ s.core.tasklist) {policy prio : ℤ} (hparam : ValidParam policy prio)
    {resetOnFork : Bool} (hok : NoticesWrr s (.setscheduler p policy prio resetOnFork)) :
    Noticed (setschedulerLocked K s p policy prio resetOnFork).2 := by
  rw [setschedulerLocked_eq]
  split_ifs with hstop hsame
  · exact h
  · exact h
  have hrange := (hinv.core.valid p).toInRange.setResetOnFork resetOnFork
  have hset := unboosted_setscheduler (t := { s.task p with schedResetOnFork := resetOnFork })
    (hu.task p).topPiWaiter hrange policy prio
  have hclass := setscheduler_schedClass { s.task p with schedResetOnFork := resetOnFork } policy
    prio
  rcases hinv.changeTask_setscheduler hK hp hparam resetOnFork with ⟨wrr', hchange⟩
  generalize hm : changeTask K s p (fun t =>
    Sched.setscheduler { t with schedResetOnFork := resetOnFork } policy prio) false = m
    at hchange ⊢
  have hcore : m.core = s.core.setTask p fun t =>
      Sched.setscheduler { t with schedResetOnFork := resetOnFork } policy prio := by
    rw [← hm, core_changeTask]
  have hself : m.task p =
      Sched.setscheduler { s.task p with schedResetOnFork := resetOnFork } policy prio := by
    rw [Sys.task, hcore, Core.setTask_self]
  have hr : Reclassed p s m := by
    refine ⟨hchange.curr, fun q hne => ?_, ?_, hchange.resched⟩
    · rw [Sys.task, hcore, Core.setTask_of_ne _ hne]
    · rw [hself, setscheduler_onRq]
  have hum : Unboosted m.core := by
    rw [hcore]
    exact hu.setTask hset.1 fun hstop => absurd hstop hset.2
  rw [← hself] at hclass
  refine hr.checkClassChanged hfair h hum hchange.consistent.core ?_ ?_ ?_ ?_ ?_ _
  · rintro rfl
    exact hinv.curr.resolve_left (hinv.core.ne_idle hp)
  · exact fun hc => hstop (hu.stop p hc)
  · exact hinv.core.schedClass_ne_idle hp
  · rw [hclass]
    split_ifs <;> simp
  · intro hc
    have hwrr : policy = schedWrr := by
      by_contra hne
      rw [hclass, if_neg hne] at hc
      split_ifs at hc
    rcases hok hwrr with hstop' | hpolicy | hneeds
    · exact absurd hstop' hstop
    · exact absurd ⟨hwrr.trans hpolicy.symm, .inl (hwrr ▸ rtPolicy_schedWrr)⟩ hsame
    · exact hneeds

/-! ## All operations -/

/-- Operations that neither wake, nor schedule, nor change the policy. -/
lemma Noticed.writes (h : Noticed s) (hinv : Inv K queued s wrr) {op : Op T} (hop : Allowed s op)
    (hplain : op.Plain s) (hmoves : ¬op.Moves)
    (hpolicy : ∀ p policy prio resetOnFork, op ≠ .setscheduler p policy prio resetOnFork)
    (hwrites : Writes s op s'.core) (hcurr : s'.core.curr = s.core.curr)
    (hflag : s.needResched s.core.curr = true → s'.needResched s.core.curr = true) :
    Noticed s' := by
  have hset : ∀ {p : T} {f : TaskStruct → TaskStruct}, s'.core = s.core.setTask p f →
      (f (s.task p)).onRq = (s.task p).onRq →
      (f (s.task p)).schedClass = (s.task p).schedClass → Noticed s' := by
    intro p f hcore hon hclass
    have hr : Reclassed p s s' := by
      refine ⟨hcurr, fun q hne => ?_, ?_, hflag⟩
      · rw [Sys.task, hcore, Core.setTask_of_ne _ hne]
      · rw [Sys.task, hcore, Core.setTask_self, hon]
    refine hr.noticed_of_class_eq h ?_
    rw [Sys.task, hcore, Core.setTask_self, hclass]
  generalize hcore : s'.core = c at hwrites
  cases hwrites with
  | same hsame =>
      rw [← hcore] at hsame
      have hclass : ∀ p, (s'.task p).schedClass = (s.task p).schedClass := fun p =>
        congrArg (fun t => t.schedClass) (hsame.task p)
      exact h.congr hcurr (hclass _) (fun p hp => ⟨(hsame.onRq p).symm.trans hp, hclass p⟩) hflag
  | moves _ hop => exact absurd hop hmoves
  | @fork p =>
      have hne : s.core.curr ≠ p := by
        rintro rfl
        exact hop.1 (hinv.curr_listed hop.2)
      refine h.congr hcurr ?_ (fun q hq => ?_) hflag
      · rw [Sys.task, hcore, Core.fork_of_ne _ hne]
      · have htask : s'.task q = (s.core.fork p).task q := by rw [Sys.task, hcore]
        rw [htask] at hq ⊢
        rcases eq_or_ne q p with rfl | hqp
        · rw [Core.fork_self, forkedTask_onRq] at hq
          exact Bool.noConfusion hq
        · rw [Core.fork_of_ne _ hqp] at hq ⊢
          exact ⟨hq, rfl⟩
  | setscheduler => exact absurd rfl (hpolicy _ _ _ _)
  | setUserNice => exact hset hcore (renicedTask_onRq _ _) (renicedTask_schedClass _ _)
  | setTopPiWaiter => exact hplain.elim
  | rtMutexSetprio => exact hplain.elim
  | schedulerTick => exact hset hcore rfl rfl

/-- **Every operation that meets its condition notices every task.** -/
theorem Noticed.step (hK : Laws K queued) (hfair : FairSwitchedTo K) (hinv : Inv K queued s wrr)
    (hu : Unboosted s.core) (h : Noticed s) {op : Op T} (hop : Allowed s op)
    (hplain : op.Plain s) (hok : NoticesWrr s op) (hstep : step K s op = .ok s')
    (hrt : s'.acct.rtThrottled = false) : Noticed s' := by
  have hother : op.schedules = false → ¬op.Moves →
      (∀ p policy prio resetOnFork, op ≠ .setscheduler p policy prio resetOnFork) →
      Noticed s' := by
    intro hno hmoves hpolicy
    rcases hinv.step hK hop with ⟨s₁, wrr₁, hok', hstepped⟩
    rw [hok'] at hstep
    obtain rfl := Except.ok.inj hstep
    rcases hstepped.curr hno with ⟨hcurr, hflag⟩
    exact h.writes hinv hop hplain hmoves hpolicy (step_writes hK hinv hop hok') hcurr hflag
  cases op with
  | schedule a => exact noticed_schedule hK hinv hop hstep hrt
  | schedYield a =>
      rcases hinv.toConsistent.yieldTask hK with ⟨wrr₁, hyield⟩
      exact noticed_schedule hK (hyield.inv hinv) (fun p hp => hyield.tasklist p (hop p hp)) hstep
        hrt
  | wakeUpNewTask p =>
      obtain rfl := Except.ok.inj hstep
      exact h.wakeUpNewTask K
  | tryToWakeUp p state =>
      obtain rfl := Except.ok.inj hstep
      exact h.tryToWakeUp K state
  | setscheduler p policy prio resetOnFork =>
      obtain rfl := Except.ok.inj hstep
      exact h.setscheduler hK hfair hinv hu hop.1 hop.2 hok
  | _ => exact hother rfl id (by simp)

/-! ## Runs -/

lemma unboosted_init (boot : Boot T) : Unboosted (init K boot).core := by
  have hprio : maxRtPrio ≤ maxPrio - 20 := by decide
  constructor
  · intro p
    rcases init_task (K := K) boot p with ⟨htask, -⟩ | htask | htask
    · rw [show (init K boot).core.task p = _ from htask]
      exact ⟨rfl, fun _ _ => ⟨hprio, hprio⟩⟩
    · rw [show (init K boot).core.task p = _ from htask]
      exact ⟨rfl, fun hstop => absurd rfl hstop⟩
    · rw [show (init K boot).core.task p = _ from htask]
      exact ⟨rfl, fun _ _ => ⟨hprio, hprio⟩⟩
  · intro p hclass
    by_contra hstop
    have htask : (init K boot).core.task p =
        if p = boot.idle then idleTask K.toConfig else initTask K.toConfig :=
      congrArg (fun t => if p = boot.idle then idleTask K.toConfig else t) (if_neg hstop)
    rw [htask] at hclass
    split_ifs at hclass <;> exact SchedClass.noConfusion hclass

lemma noticed_init (boot : Boot T) : Noticed (init K boot) := by
  intro p hon
  rw [init_onRq] at hon
  exact Bool.noConfusion hon

/-- The operations of the runs: their callers allow them, there is no priority inheritance and no RT
throttling, and changes to the WRR policy need no flag. -/
def Notices (s : Sys T E) (op : Op T) : Prop :=
  Allowed s op ∧ op.Plain s ∧ s.acct.rtThrottled = false ∧ NoticesWrr s op

instance (s : Sys T E) : (op : Op T) → Decidable (op.Plain s)
  | .fork _ => inferInstanceAs (Decidable (_ ≠ _))
  | .setTopPiWaiter _ _ | .rtMutexSetprio _ _ => .isFalse id
  | .wakeUpNewTask _ | .tryToWakeUp _ _ | .setCurrentState _ | .schedule _ | .schedYield _
  | .schedulerTick | .pickNextTask | .setscheduler _ _ _ _ | .setUserNice _ _ | .schedMoveTask _ _
  | .writeField _ _ | .schedRtPeriodTimer _ => .isTrue trivial

instance [Fintype T] (s : Sys T E) (p : T) : Decidable (NeedsNoFlag s p) :=
  inferInstanceAs (Decidable (_ ∨ (_ → _ → ∀ q, q ≠ p → _ → _ ≠ _) ∧ (_ ≠ _ → _ → _ → _ ≠ _)))

instance [Fintype T] (s : Sys T E) : (op : Op T) → Decidable (NoticesWrr s op)
  | .setscheduler _ _ _ _ => inferInstanceAs (Decidable (_ = _ → _ ∨ _ ∨ NeedsNoFlag _ _))
  | .fork _ | .wakeUpNewTask _ | .tryToWakeUp _ _ | .setCurrentState _ | .schedule _
  | .schedYield _ | .schedulerTick | .pickNextTask | .setUserNice _ _ | .setTopPiWaiter _ _
  | .rtMutexSetprio _ _ | .schedMoveTask _ _ | .writeField _ _ | .schedRtPeriodTimer _ =>
      .isTrue trivial

instance [Fintype T] (s : Sys T E) (op : Op T) : Decidable (Notices s op) :=
  inferInstanceAs (Decidable (_ ∧ _ ∧ _ ∧ _))

lemma Run.unboosted (hK : Laws K queued) {boot : Boot T} (h : Run K (Sched.init K boot) Notices s) :
    Unboosted s.core := by
  induction h with
  | init => exact unboosted_init boot
  | step hrun hop hstep ih =>
      rcases Reachable.inv hK (hrun.mono fun _ _ => And.left) with ⟨wrr, hinv⟩
      exact ih.writes hinv.core hop.2.1 (step_writes hK hinv hop.1 hstep)

/-- **No queued task of a higher class waits unnoticed**, in every state of a run in which changes
to the WRR policy need no flag. -/
theorem higher_class_noticed (hK : Laws K queued) (hfair : FairSwitchedTo K) {boot : Boot T}
    (h : Run K (init K boot) Notices s) (hrt : s.acct.rtThrottled = false) : Noticed s := by
  induction h with
  | init => exact noticed_init boot
  | step hrun hop hstep ih =>
      rcases Reachable.inv hK (hrun.mono fun _ _ => And.left) with ⟨wrr, hinv⟩
      exact (ih hop.2.2.1).step hK hfair hinv (hrun.unboosted hK) hop.1 hop.2.1 hop.2.2.2 hstep hrt

end

lemma fifoKernel_fairSwitchedTo (cfg : Config) :
    FairSwitchedTo (fifoKernel cfg : Kernel T (SchedClass → List T)) := by
  constructor
  · intro s p hon hcurr
    simp [fifoKernel, hon, hcurr]
  · intro s p hon hcurr hpreempts
    simp [fifoKernel, hon, hpreempts]

/-- Without priority inheritance and RT throttling, a fair task comes to wait in the WRR class
behind another fair task; and an RT task goes to the WRR class while another one waits.  Neither is
noticed. -/
theorem higher_class_unnoticed :
    (∃ s, runOps (fifoKernel smallConfig)
        (fun s op => Allowed s op ∧ op.Plain s ∧ s.acct.rtThrottled = false)
        (init (fifoKernel smallConfig) smallBoot)
        [.fork 2, .wakeUpNewTask 2, .schedule ⟨false, false, none⟩, .fork 3, .wakeUpNewTask 3,
          .setscheduler 3 schedWrr 0 false] = some s ∧
      s.acct.rtThrottled = false ∧ ¬Noticed s) ∧
    ∃ s, runOps (fifoKernel smallConfig)
        (fun s op => Allowed s op ∧ op.Plain s ∧ s.acct.rtThrottled = false)
        (init (fifoKernel smallConfig) smallBoot)
        [.fork 2, .setscheduler 2 schedFifo 50 false, .wakeUpNewTask 2,
          .schedule ⟨false, false, none⟩, .fork 3, .wakeUpNewTask 3,
          .setscheduler 2 schedWrr 0 false] = some s ∧
      s.acct.rtThrottled = false ∧ ¬Noticed s := by
  have hbad : ∀ (o : Option (Sys ℕ (SchedClass → List ℕ))) (p : ℕ),
      o.any (fun s => s.acct.rtThrottled = false ∧ (s.task p).onRq = true ∧
        (s.task s.core.curr).schedClass.rank < (s.task p).schedClass.rank ∧
        s.needResched s.core.curr = false) = true →
      ∃ s, o = some s ∧ s.acct.rtThrottled = false ∧ ¬Noticed s := by
    intro o p hany
    rcases exists_of_any hany with ⟨s, hs, hrt, hon, hlt, hflag⟩
    refine ⟨s, hs, hrt, fun hnoticed => ?_⟩
    rw [hnoticed p hon hlt] at hflag
    exact Bool.noConfusion hflag
  exact ⟨hbad _ 3 (by decide), hbad _ 3 (by decide)⟩

/-- An RT task is woken while a WRR task runs. -/
theorem higher_class_noticed_three :
    ∃ s, runOps (fifoKernel smallConfig) Notices
        (init (fifoKernel smallConfig) ⟨(0 : Fin 4), some 1, by decide⟩)
        [.fork 2, .wakeUpNewTask 2, .schedule ⟨false, false, none⟩,
          .setscheduler 2 schedWrr 0 false, .fork 3, .setscheduler 3 schedFifo 50 false,
          .wakeUpNewTask 3] = some s ∧
      s.acct.rtThrottled = false ∧ Noticed s := by
  have hrun : ∃ s, runOps (fifoKernel smallConfig) Notices
        (init (fifoKernel smallConfig) ⟨(0 : Fin 4), some 1, by decide⟩)
        [.fork 2, .wakeUpNewTask 2, .schedule ⟨false, false, none⟩,
          .setscheduler 2 schedWrr 0 false, .fork 3, .setscheduler 3 schedFifo 50 false,
          .wakeUpNewTask 3] = some s ∧ s.acct.rtThrottled = false := exists_of_any (by decide)
  rcases hrun with ⟨s, hs, hrt⟩
  exact ⟨s, hs, hrt, higher_class_noticed (fifoKernel_laws smallConfig)
    (fifoKernel_fairSwitchedTo smallConfig) (Run.runOps _ .init hs) hrt⟩

end Sched
