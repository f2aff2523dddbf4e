import OsPrj.Sched.Steps
import Mathlib.Data.Set.Card

/-!
# The invariant of the run queue

* `Inv` — the tasks, the queues and the counters agree, and the current task is queued unless it is
  the idle task.
* `Inv.step` — **every operation that its callers allow succeeds and keeps the invariant**.
* `wrr_queue_invariant` — what follows for `rq->wrr` and `rq->nr_running` in all reachable states.
-/

namespace Sched

open Fifo ListHead

variable {T E : Type} [DecidableEq T] {K : Kernel T E} {queued : E → SchedClass → Finset T}
  {s s' : Sys T E} {wrr wrr' : List T} {p q : T}

/-! ## schedule -/

/-- The invariant between operations. -/
structure Inv (K : Kernel T E) (queued : E → SchedClass → Finset T) (s : Sys T E) (wrr : List T) :
    Prop extends Consistent K queued s wrr where
  curr : s.core.curr = s.core.idle ∨ (s.task s.core.curr).onRq = true

lemma Inv.curr_listed (h : Inv K queued s wrr) (hne : s.core.curr ≠ s.core.idle) :
    s.core.curr ∈ s.core.tasklist :=
  h.core.listed _ (h.curr.resolve_left hne)

lemma Inv.curr_ne_idle_of_class (h : Inv K queued s wrr)
    (hclass : (s.task s.core.curr).schedClass ≠ .idle) : s.core.curr ≠ s.core.idle := by
  intro heq
  refine hclass ?_
  rw [heq, Sys.task, h.core.idle]
  rfl

/-- Operations in which no task leaves keep the invariant. -/
lemma Stays.inv (h : Inv K queued s wrr) (hs : Stays K queued q s s' wrr wrr') :
    Inv K queued s' wrr' := by
  refine ⟨hs.consistent, ?_⟩
  rw [hs.curr, hs.idle]
  exact h.curr.imp_right fun hon => hs.onRq _ hon

/-- **The first half of `__schedule` moves nobody but the task that goes to sleep.** -/
theorem Inv.scheduleOut (hK : Laws K queued) (h : Inv K queued s wrr) (a : ScheduleArgs T)
    (ha : ∀ p ∈ a.toWakeup, p ∈ s.core.tasklist) :
    ∃ wrr', Moves K queued s.core.curr s (scheduleOut K s a) wrr wrr' := by
  have hawake : (s.task s.core.curr).state ≠ 0 → s.core.curr ≠ s.core.idle := by
    intro hstate heq
    rw [heq, Sys.task, h.core.idle] at hstate
    exact hstate rfl
  rw [Sched.scheduleOut]
  by_cases hsleep : (s.task s.core.curr).state ≠ 0 ∧ a.preemptActive = false
  · rw [if_pos hsleep]
    have hne := hawake hsleep.1
    have hlisted := h.curr_listed hne
    by_cases hsignal : a.signalPending = true
    · rw [if_pos hsignal]
      exact ⟨wrr, (h.toConsistent.setState hlisted taskRunning _).toMoves⟩
    · rw [if_neg hsignal]
      have hout := h.toConsistent.deactivate hK hlisted (h.curr.resolve_left hne) true
      by_cases hworker : (((deactivateTask K s s.core.curr true).setTask s.core.curr fun t =>
          { t with onRq := false }).task s.core.curr).wqWorker = true
      · rw [if_pos hworker]
        cases hwake : a.toWakeup with
        | none => exact ⟨_, hout⟩
        | some p =>
            rcases hout.consistent.tryToWakeUpLocal hK (hout.tasklist p (ha p hwake))
              s.core.curr with ⟨wrr', hlocal⟩
            exact ⟨wrr', hout.trans hlocal.toMoves⟩
      · rw [if_neg hworker]
        exact ⟨_, hout⟩
  · rw [if_neg hsleep]
    exact ⟨wrr, (Stays.refl h.toConsistent s.core.curr).toMoves⟩

/-- The end of `__schedule`, once `next` is picked. -/
def switchTo (s : Sys T E) (prev next : T) : Sys T E :=
  { s.clearNeedResched prev with
    acct := { s.acct with skipClockUpdate := 0 }, core := { s.core with curr := next } }

/-- `__schedule` in three parts. -/
lemma schedule_eq {a : ScheduleArgs T} {next : T}
    (hpick : pickNextTask K (putPrevTask K (Sched.scheduleOut K s a) s.core.curr) = .ok (next, s'))
    (hcurr : s'.core.curr = s.core.curr) :
    schedule K s a = .ok (switchTo s' s.core.curr next) := by
  rw [schedule, hpick]
  show (if s.core.curr ≠ next then Except.ok _ else Except.ok _) = _
  split_ifs with hne
  · rfl
  · rw [not_not] at hne
    rw [switchTo, ← hne, ← hcurr]
    rfl

/-- A pick keeps everything but the execution times and the record of picks. -/
lemma Consistent.picked (h : Consistent K queued s wrr) {c : SchedClass}
    (hp : Picked queued c p s s' wrr) :
    Consistent K queued s' wrr where
  core := by
    have hcore : s'.core = s.core := hp.quiet.core
    exact hcore ▸ h.core
  layout := by
    have hcore : s'.core = s.core := hp.quiet.core
    rw [hcore]
    exact (h.layout.quiet hp.quiet).congr rfl rfl id
  wrrThrottled := hp.quiet.wrrThrottled.trans h.wrrThrottled

/-- What `pick_next_task` returns is the idle task or a queued one. -/
lemma Consistent.offered (hK : Laws K queued) (h : Consistent K queued s wrr) {c : SchedClass}
    (hoffer : Offers K c s p s') :
    Picked queued c p s s' wrr ∧ (s.task p).schedClass = c ∧
      (p = s.core.idle ∨ (s.task p).onRq = true) := by
  rcases h.layout.classPickNextTask hK h.wrrThrottled c with
    ⟨hdecline, -⟩ | ⟨p', s'', hoffer', hpicked, hplace⟩
  · rw [Declines, hoffer] at hdecline
    exact absurd hdecline (by simp)
  · rw [Offers, hoffer] at hoffer'
    obtain ⟨rfl, rfl⟩ : p = p' ∧ s' = s'' := by simpa using hoffer'
    refine ⟨hpicked, ?_⟩
    rcases hplace with ⟨rfl, rfl⟩ | hclass
    · refine ⟨?_, .inl rfl⟩
      rw [Sys.task, h.core.idle]
      rfl
    · cases hon : (s.task p).onRq with
      | false =>
          rw [Core.place_of_off hon] at hclass
          exact absurd hclass (by simp [Place.schedClass])
      | true =>
          have hidle : (s.task p).schedClass ≠ .idle :=
            h.core.schedClass_ne_idle (h.core.listed p hon)
          rw [Core.place_of_on hon, TaskStruct.spot_schedClass _ hidle] at hclass
          exact ⟨Option.some.inj hclass, .inr rfl⟩

/-- What a whole `__schedule` does: `prev` may go off the queue, and the first class that offers a
task gives the next one. -/
theorem Inv.schedule (hK : Laws K queued) (h : Inv K queued s wrr) (a : ScheduleArgs T)
    (ha : ∀ p ∈ a.toWakeup, p ∈ s.core.tasklist) :
    ∃ s₁ wrr' pre c suf next s₂, Moves K queued s.core.curr s s₁ wrr wrr' ∧
      s₁ = putPrevTask K (Sched.scheduleOut K s a) s.core.curr ∧
      forEachClass = pre ++ c :: suf ∧ (∀ d ∈ pre, Declines K d s₁) ∧ Offers K c s₁ next s₂ ∧
      Sched.schedule K s a = .ok (switchTo s₂ s.core.curr next) ∧
      Inv K queued (switchTo s₂ s.core.curr next) wrr' := by
  rcases h.scheduleOut hK a ha with ⟨wrr', hout⟩
  have hput := hout.trans (hout.consistent.quiet
    (quiet_putPrevTask hK.toQuietHooks _ s.core.curr) s.core.curr).toMoves
  have hlayout := hput.consistent.layout
  rcases hlayout.pickNextTask hK hput.consistent.wrrThrottled with
    ⟨pre, c, suf, next, s₂, hclasses, hpre, hoffer, hpick⟩
  rcases hput.consistent.offered hK hoffer with ⟨hpicked, -, hnext⟩
  have hcore : s₂.core = (putPrevTask K (Sched.scheduleOut K s a) s.core.curr).core :=
    hpicked.quiet.core
  have hconsistent := hput.consistent.picked hpicked
  have hcurr : s₂.core.curr = s.core.curr := by rw [hcore, hput.curr]
  refine ⟨_, wrr', pre, c, suf, next, s₂, hput, rfl, hclasses, hpre, hoffer,
    schedule_eq hpick hcurr, ⟨⟨?_, ?_, hconsistent.wrrThrottled⟩, ?_⟩⟩
  · exact ⟨hconsistent.core.idle, hconsistent.core.idleClass, hconsistent.core.idleNotListed,
      hconsistent.core.stopListed, hconsistent.core.listed, hconsistent.core.valid⟩
  · exact hconsistent.layout.congr rfl rfl id
  · show next = s₂.core.idle ∨ (s₂.core.task next).onRq = true
    rw [hcore]
    exact hnext

lemma Consistent.mem_wrr (h : Consistent K queued s wrr) (p : T) :
    p ∈ wrr ↔ (s.task p).onRq = true ∧ (s.task p).schedClass = .wrr := by
  rw [h.layout.mem_wrr]
  cases hon : (s.task p).onRq with
  | false => simp [Core.place_of_off hon]
  | true => rw [Core.place_of_on hon, TaskStruct.spot_eq_wrr_iff, eq_self_iff_true, true_and]

/-! ## One operation -/

/-- The task that an operation takes off its queue and puts back. -/
def Op.target : Op T → Option T
  | .setscheduler p _ _ _ | .setUserNice p _ | .rtMutexSetprio p _ | .schedMoveTask p _ => some p
  | _ => none

/-- Whether an operation calls `__schedule`. -/
def Op.schedules : Op T → Bool
  | .schedule _ | .schedYield _ => true
  | _ => false

/-- What an operation establishes. -/
structure Stepped (K : Kernel T E) (queued : E → SchedClass → Finset T) (op : Op T)
    (s s' : Sys T E) (wrr wrr' : List T) : Prop where
  inv : Inv K queued s' wrr'
  order : ∀ b, b ≠ s.core.curr → op.target ≠ some b → NotOvertaken b wrr wrr'
  picks : s'.wrrPicks = s.wrrPicks ∨ ∃ p, wrr'.head? = some p ∧ s'.wrrPicks = s.wrrPicks ++ [p]
  curr : op.schedules = false → s'.core.curr = s.core.curr ∧
    (s.needResched s.core.curr = true → s'.needResched s.core.curr = true)
  next : s'.core.curr = s.core.curr ∨ s'.core.curr ∉ wrr' ∨
    s'.wrrPicks = s.wrrPicks ++ [s'.core.curr]

lemma Stays.stepped {op : Op T} (h : Inv K queued s wrr) (hs : Stays K queued q s s' wrr wrr')
    (hq : q = s.core.curr ∨ op.target = some q) : Stepped K queued op s s' wrr wrr' where
  inv := hs.inv h
  order := by
    intro b hb htarget
    refine hs.order b ?_
    rintro rfl
    exact hq.elim hb htarget
  picks := .inl hs.picks
  curr := fun _ => ⟨hs.curr, hs.resched⟩
  next := .inl hs.curr

omit [DecidableEq T] in
/-- A pick and the record of picks. -/
lemma Picked.picks_head {c : SchedClass} (h : Picked queued c p s s' wrr) :
    s'.wrrPicks = s.wrrPicks ∨
      ∃ q, wrr.head? = some q ∧ s'.wrrPicks = s.wrrPicks ++ [q] := by
  rcases h.picks with ⟨-, hsame⟩ | ⟨-, hhead, hpicks⟩
  · exact .inl hsame
  · exact .inr ⟨p, hhead, hpicks⟩

lemma Inv.pickNextTask_step (hK : Laws K queued) (h : Inv K queued s wrr) :
    ∃ s' wrr', step K s .pickNextTask = .ok s' ∧ Stepped K queued .pickNextTask s s' wrr wrr' := by
  rcases h.layout.pickNextTask hK h.wrrThrottled with ⟨-, c, -, p, s', -, -, hoffer, hpick⟩
  have hpicked := (h.toConsistent.offered hK hoffer).1
  have hcore : s'.core = s.core := hpicked.quiet.core
  refine ⟨s', wrr, ?_, ⟨h.toConsistent.picked hpicked, ?_⟩, fun b _ _ => .refl b wrr,
    hpicked.picks_head, fun _ => ⟨by rw [hcore], hpicked.quiet.resched _⟩, .inl (by rw [hcore])⟩
  · rw [step, hpick]
    rfl
  · rw [Sys.task, hcore]
    exact h.curr

lemma Inv.schedule_step (hK : Laws K queued) (h : Inv K queued s wrr) {a : ScheduleArgs T}
    (ha : ∀ p ∈ a.toWakeup, p ∈ s.core.tasklist) :
    ∃ s' wrr', Sched.schedule K s a = .ok s' ∧ Stepped K queued (.schedule a) s s' wrr wrr' := by
  rcases h.schedule hK a ha with
    ⟨s₁, wrr', -, c, -, next, s₂, hmoves, -, -, -, hoffer, hschedule, hinv⟩
  rcases hmoves.consistent.offered hK hoffer with ⟨hpicked, hclass, -⟩
  have hpicks := hpicked.picks_head
  rw [hmoves.picks] at hpicks
  refine ⟨_, wrr', hschedule, hinv, fun b hb _ => hmoves.order b hb, hpicks,
    fun hno => Bool.noConfusion hno, .inr ?_⟩
  show next ∉ wrr' ∨ s₂.wrrPicks = s.wrrPicks ++ [next]
  rcases hpicked.picks with ⟨hother, -⟩ | ⟨-, -, hpick⟩
  · left
    rw [hmoves.consistent.mem_wrr, hclass]
    exact fun hmem => hother hmem.2
  · right
    rw [hpick, hmoves.picks]

lemma Inv.schedYield_step (hK : Laws K queued) (h : Inv K queued s wrr) {a : ScheduleArgs T}
    (ha : ∀ p ∈ a.toWakeup, p ∈ s.core.tasklist) :
    ∃ s' wrr', schedYield K s a = .ok s' ∧ Stepped K queued (.schedYield a) s s' wrr wrr' := by
  rcases h.toConsistent.yieldTask hK with ⟨wrr₁, hyield⟩
  rcases (hyield.inv h).schedule_step hK fun p hp => hyield.tasklist p (ha p hp) with
    ⟨s', wrr', hschedule, hstepped⟩
  refine ⟨s', wrr', hschedule, hstepped.inv, fun b hb _ => (hyield.order b hb).trans ?_, ?_,
    fun hno => Bool.noConfusion hno, ?_⟩
  · exact hstepped.order b (by rwa [hyield.curr]) (by simp [Op.target])
  · rw [← hyield.picks]
    exact hstepped.picks
  · rw [← hyield.picks, ← hyield.curr]
    exact hstepped.next

lemma Inv.timer_step (h : Inv K queued s wrr) (overrun : BitVec 64) :
    Stepped K queued (.schedRtPeriodTimer overrun) s (doSchedRtPeriodTimer K.toConfig s overrun)
      wrr wrr := by
  have hset : Inv K queued (s.setAcct { s.acct with rtThrottled := false }) wrr :=
    ⟨⟨h.core, h.layout.congr rfl rfl id, h.wrrThrottled⟩, h.curr⟩
  have hquiet := hset.toConsistent.quiet (quiet_doSchedRtPeriodTimer K.toConfig s overrun)
    s.core.curr
  exact ⟨hquiet.inv hset, fun b _ _ => .refl b wrr, .inl hquiet.picks,
    fun _ => ⟨hquiet.curr, hquiet.resched⟩, .inl hquiet.curr⟩

/-- **Every allowed operation succeeds and keeps the invariant.** -/
theorem Inv.step (hK : Laws K queued) (h : Inv K queued s wrr) {op : Op T} (hop : Allowed s op) :
    ∃ s' wrr', step K s op = .ok s' ∧ Stepped K queued op s s' wrr wrr' := by
  have hvalid := h.core.valid
  cases op with
  | fork p =>
      have hcurr : p ≠ s.core.curr := by
        rintro rfl
        exact hop.1 (h.curr_listed hop.2)
      exact ⟨_, wrr, rfl,
        (h.toConsistent.schedFork hK hop.1 hop.2 hcurr s.core.curr).stepped h (.inl rfl)⟩
  | wakeUpNewTask p =>
      rcases h.toConsistent.wakeUpNewTask hK hop.1 hop.2.2 s.core.curr with ⟨wrr', hs⟩
      exact ⟨_, wrr', rfl, hs.stepped h (.inl rfl)⟩
  | tryToWakeUp p state =>
      rcases h.toConsistent.tryToWakeUp hK hop state s.core.curr with ⟨wrr', hs⟩
      exact ⟨_, wrr', rfl, hs.stepped h (.inl rfl)⟩
  | setCurrentState state =>
      exact ⟨_, wrr, rfl,
        (h.toConsistent.setState (h.curr_listed hop) state s.core.curr).stepped h (.inl rfl)⟩
  | schedule a => exact h.schedule_step hK hop
  | schedYield a => exact h.schedYield_step hK hop
  | schedulerTick =>
      rcases h.toConsistent.schedulerTick hK (fun hclass =>
        h.curr_listed (h.curr_ne_idle_of_class (by simp [hclass]))) with ⟨wrr', hs⟩
      exact ⟨_, wrr', rfl, hs.stepped h (.inl rfl)⟩
  | pickNextTask => exact h.pickNextTask_step hK
  | setscheduler p policy prio resetOnFork =>
      rcases h.toConsistent.setscheduler hK hop.1 hop.2 resetOnFork with ⟨wrr', hs⟩
      exact ⟨_, wrr', rfl, hs.stepped h (.inr rfl)⟩
  | setUserNice p nice =>
      rcases h.toConsistent.setUserNice hK hop nice with ⟨wrr', hs⟩
      exact ⟨_, wrr', rfl, hs.stepped h (.inr rfl)⟩
  | setTopPiWaiter p prio =>
      have hset := h.toConsistent.setTask (f := fun t => { t with topPiWaiter := prio }) hop.1
        ⟨⟨(hvalid p).normalPrio, (hvalid p).staticPrio, (hvalid p).rtPriority, hop.2⟩,
          (hvalid p).prio⟩ (h.core.schedClass_ne_idle hop.1) rfl rfl s.core.curr
      exact ⟨_, wrr, rfl, hset.stepped h (.inl rfl)⟩
  | rtMutexSetprio p prio =>
      rcases h.toConsistent.rtMutexSetprio hK hop.1 hop.2 with ⟨s', wrr', hok, hs⟩
      exact ⟨s', wrr', hok, hs.stepped h (.inr rfl)⟩
  | schedMoveTask p groupPath =>
      rcases h.toConsistent.schedMoveTask hK hop groupPath with ⟨wrr', hs⟩
      exact ⟨_, wrr', rfl, hs.stepped h (.inr rfl)⟩
  | writeField p field =>
      exact ⟨_, wrr, rfl,
        (h.toConsistent.writeField hop.1 field s.core.curr).stepped h (.inl rfl)⟩
  | schedRtPeriodTimer overrun => exact ⟨_, wrr, rfl, h.timer_step overrun⟩

/-! ## Runs -/

lemma sound_init (boot : Boot T) : Sound (init K boot) [] fun _ => [] where
  represents := by
    have hlists : queueLists ([] : List T) (fun _ => []) = fun _ => [] := by
      funext k
      cases k <;> rfl
    rw [hlists]
    exact ListHead.represents_init
  wrrNr := rfl
  rtNr := by simp [init]
  bitmap := by simp [init]
  range := by simp
  noWarning := by simp [init]

/-- The tasks after `sched_init`. -/
lemma init_task (boot : Boot T) (p : T) :
    (init K boot).task p = idleTask K.toConfig ∧ p = boot.idle ∨
      (init K boot).task p = stopTask K.toConfig ∨ (init K boot).task p = initTask K.toConfig := by
  have htask : (init K boot).task p =
      if p = boot.idle then idleTask K.toConfig
      else if boot.stop = some p then stopTask K.toConfig else initTask K.toConfig := rfl
  rw [htask]
  split_ifs with hidle hstop
  · exact .inl ⟨rfl, hidle⟩
  · exact .inr (.inl rfl)
  · exact .inr (.inr rfl)

lemma init_onRq (boot : Boot T) (p : T) : ((init K boot).task p).onRq = false := by
  rcases init_task (K := K) boot p with ⟨htask, -⟩ | htask | htask
  · rw [htask]
    rfl
  · rw [htask]
    rfl
  · rw [htask]
    rfl

lemma valid_initTask (cfg : Config) : (initTask cfg).Valid := by
  constructor
  · constructor <;> simp [initTask, maxPrio, maxRtPrio]
  · simp [initTask]

lemma coreInv_init (boot : Boot T) : CoreInv K.toConfig (init K boot).core where
  idle := if_pos rfl
  idleClass := by
    intro p hclass
    rcases init_task (K := K) boot p with ⟨-, hp⟩ | htask | htask
    · exact hp
    · rw [show (init K boot).core.task p = _ from htask] at hclass
      exact SchedClass.noConfusion hclass
    · rw [show (init K boot).core.task p = _ from htask] at hclass
      exact SchedClass.noConfusion hclass
  idleNotListed := by
    intro hmem
    exact boot.stop_ne (Option.mem_toList.mp hmem)
  stopListed := fun p hp => Option.mem_toList.mpr hp
  listed := by
    intro p hon
    rw [show ((init K boot).core.task p).onRq = _ from init_onRq boot p] at hon
    exact Bool.noConfusion hon
  valid := by
    intro p
    have hinit := valid_initTask K.toConfig
    rcases init_task (K := K) boot p with ⟨htask, -⟩ | htask | htask
    · rw [show (init K boot).core.task p = _ from htask]
      exact ⟨⟨hinit.normalPrio, hinit.staticPrio, hinit.rtPriority, hinit.topPiWaiter⟩,
        fun hclass => SchedClass.noConfusion hclass⟩
    · rw [show (init K boot).core.task p = _ from htask]
      refine ⟨⟨le_rfl, hinit.staticPrio, ?_, hinit.topPiWaiter⟩,
        fun hclass => SchedClass.noConfusion hclass⟩
      simp [stopTask, maxRtPrio]
    · rw [show (init K boot).core.task p = _ from htask]
      exact hinit

theorem inv_init (hK : Laws K queued) (boot : Boot T) : Inv K queued (init K boot) [] where
  core := coreInv_init boot
  layout := by
    have hoff : ∀ p, (init K boot).core.place p = .off := fun p =>
      Core.place_of_off (init_onRq boot p)
    refine ⟨⟨fun _ => [], sound_init boot, fun p i => ?_⟩, fun p => ?_, fun p c => ?_,
      ⟨∅, fun p => ?_, rfl⟩⟩
    · simp [hoff]
    · simp [hoff]
    · rw [show (init K boot).other = K.otherInit from rfl, hK.init]
      simp [hoff]
    · simp [hoff]
  wrrThrottled := rfl
  curr := .inl rfl

/-- **The invariant holds in every reachable state.** -/
theorem Reachable.inv (hK : Laws K queued) {boot : Boot T} (h : Reachable K boot s) :
    ∃ wrr, Inv K queued s wrr := by
  induction h with
  | init => exact ⟨[], inv_init hK boot⟩
  | step _ hop hstep ih =>
      rcases ih with ⟨wrr, hinv⟩
      rcases hinv.step hK hop with ⟨s', wrr', hok, hstepped⟩
      rw [hok] at hstep
      obtain rfl := Except.ok.inj hstep
      exact ⟨wrr', hstepped.inv⟩

/-- `rq->wrr.wrr_queue` in memory, as a list of tasks. -/
def WrrQueue (s : Sys T E) (wrr : List T) : Prop :=
  Visits s.queues.links (.head .wrrQueue) (.head .wrrQueue) (wrr.map fun p => .node (.wrr p))

/-- The tasks that are queued in classes other than WRR. -/
def queuedElsewhere (s : Sys T E) : Set T :=
  { p | (s.task p).onRq = true ∧ (s.task p).schedClass ≠ .wrr }

lemma Layout.wrrQueue {place : T → Place} (h : Layout queued s place wrr) : WrrQueue s wrr := by
  rcases h.sound with ⟨rt, hs, -⟩
  have hvisits := hs.represents.visits .wrrQueue
  rwa [queueLists, List.map_map] at hvisits

omit [DecidableEq T] in
lemma Core.place_ne_off_iff (c : Core T) (p : T) : c.place p ≠ .off ↔ (c.task p).onRq = true := by
  cases hon : (c.task p).onRq with
  | false => simp [Core.place_of_off hon]
  | true => simp [Core.place_of_on hon, TaskStruct.spot_ne_off]

lemma Consistent.nrRunning (h : Consistent K queued s wrr) : (queuedElsewhere s).Finite ∧
    s.queues.nrRunning = wrr.length + (queuedElsewhere s).ncard := by
  classical
  rcases h.layout.nr with ⟨P, hP, hnr⟩
  have helse : queuedElsewhere s = (P.filter fun p => (s.task p).schedClass ≠ .wrr : Finset T) := by
    ext p
    rw [Finset.mem_coe, Finset.mem_filter, hP, Core.place_ne_off_iff]
    rfl
  have hwrr : wrr.toFinset = P.filter fun p => (s.task p).schedClass = .wrr := by
    ext p
    rw [List.mem_toFinset, Finset.mem_filter, hP, Core.place_ne_off_iff, h.mem_wrr]
  have hsplit := Finset.card_filter_add_card_filter_not (s := P)
    fun p => (s.task p).schedClass = .wrr
  rw [← hwrr, List.toFinset_card_of_nodup h.layout.wrr_nodup] at hsplit
  rw [helse, Set.ncard_coe_finset, hnr, ← hsplit]
  exact ⟨Finset.finite_toSet _, by push_cast; rfl⟩

/-- **The representation invariant of the WRR queue**, in every reachable state: no task is in it
twice, it holds the queued tasks of the class, its length is counted, and so is the number of all
queued tasks. -/
theorem wrr_queue_invariant (hK : Laws K queued) {boot : Boot T} (h : Reachable K boot s) :
    ∃ wrr, WrrQueue s wrr ∧ wrr.Nodup ∧
      (∀ p, p ∈ wrr ↔ (s.task p).onRq = true ∧ (s.task p).schedClass = .wrr) ∧
      s.queues.wrrNrRunning = wrr.length ∧ Warning.decWrrTasks ∉ s.warnings ∧
      (queuedElsewhere s).Finite ∧
      s.queues.nrRunning = s.queues.wrrNrRunning + (queuedElsewhere s).ncard := by
  rcases h.inv hK with ⟨wrr, hinv⟩
  rcases hinv.layout.sound with ⟨rt, hs, -⟩
  rcases hinv.nrRunning with ⟨hfinite, hnr⟩
  rw [← hs.wrrNr] at hnr
  exact ⟨wrr, hinv.layout.wrrQueue, hs.wrr_nodup, hinv.mem_wrr, hs.wrrNr, hs.noWarning, hfinite,
    hnr⟩

/-- Two tasks are forked and moved to the WRR class, one of them while it runs. -/
theorem wrr_queue_invariant_two :
    ∃ s, runOps (fifoKernel smallConfig) Allowed (init (fifoKernel smallConfig) smallBoot)
        [.fork 2, .wakeUpNewTask 2, .schedule ⟨false, false, none⟩,
          .setscheduler 2 schedWrr 0 false, .fork 3, .wakeUpNewTask 3,
          .setscheduler 3 schedNormal 0 false, .setscheduler 3 schedWrr 0 false,
          .schedulerTick] = some s ∧
      ∃ wrr, WrrQueue s wrr ∧ wrr.Nodup ∧
        (∀ p, p ∈ wrr ↔ (s.task p).onRq = true ∧ (s.task p).schedClass = .wrr) ∧
        s.queues.wrrNrRunning = wrr.length ∧ Warning.decWrrTasks ∉ s.warnings ∧
        (queuedElsewhere s).Finite ∧
        s.queues.nrRunning = s.queues.wrrNrRunning + (queuedElsewhere s).ncard := by
  refine Option.isSome_iff_exists.mp ?_ |>.imp fun s hs => ⟨hs, ?_⟩
  · decide
  · exact wrr_queue_invariant (fifoKernel_laws smallConfig) (Run.runOps _ .init hs)

end Sched
