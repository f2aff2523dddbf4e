import OsPrj.Sched.Writes
import Mathlib.Data.BitVec
import Mathlib.Tactic.Abel

/-!
# Execution times

`update_curr_wrr` and `update_curr_rt` charge the current task with the time since its
`exec_start`; picks and `set_curr_task` restart the stamp.

* `SteadyClock`, `ChargingHooks` — what is assumed of the clock and of the other classes.
* `Charged` — the current task has been charged, together with its thread group or without it.
* `Accounted` — **what a part of an operation does to the execution times** while the current task
  and its class stay the same.  Such parts compose.
-/

namespace Sched

variable {T E : Type} [DecidableEq T]

/-! ## Assumptions -/

/-- `sched_clock_cpu` never goes back and stays below `2 ^ 63`. -/
structure SteadyClock (cfg : Config) : Prop where
  mono : ∀ n, (cfg.schedClock n).toNat ≤ (cfg.schedClock (n + 1)).toNat
  bounded : ∀ n, (cfg.schedClock n).toNat < 2 ^ 63

/-- What a hook of another class does to the times: it may update the clock; it leaves the tasks of
the WRR class alone; and it charges the current task of `stop` or `fair`, together with the thread
group of it. -/
structure HookCharges (K : Kernel T E) (s : Sys T E) (r : HookResult T E) : Prop where
  clock : (r.acct.clock, r.acct.clockTask, r.acct.reads)
      = (s.acct.clock, s.acct.clockTask, s.acct.reads) ∨
    (r.acct.clock, r.acct.clockTask, r.acct.reads)
      = ((updateRqClock K s).acct.clock, (updateRqClock K s).acct.clockTask,
        (updateRqClock K s).acct.reads)
  wrr : ∀ p, (s.task p).schedClass = .wrr → r.acct.se p = s.acct.se p
  charge : ∃ delta : BitVec 64,
    (delta ≠ 0 → (s.task s.core.curr).schedClass = .stop ∨
      (s.task s.core.curr).schedClass = .fair) ∧
    (∀ p, (r.acct.se p).sumExecRuntime
      = (s.acct.se p).sumExecRuntime + if p = s.core.curr then delta else 0) ∧
    ∀ g, r.acct.groupRuntime g
      = s.acct.groupRuntime g + if g = (s.task s.core.curr).tgid then delta else 0

/-- All hooks of the other classes do so, and no pick updates the clock. -/
structure ChargingHooks (K : Kernel T E) : Prop where
  enqueue : ∀ c s p flags, HookCharges K s (K.enqueueOther c s p flags).1
  dequeue : ∀ c s p sleep, HookCharges K s (K.dequeueOther c s p sleep).1
  yield : ∀ c s, HookCharges K s (K.yieldOther c s)
  checkPreempt : ∀ c s p, HookCharges K s (K.checkPreemptOther c s p)
  pick : ∀ c s, HookCharges K s (K.pickOther c s).2
  pickClock : ∀ c s, (K.pickOther c s).2.acct.clockTask = s.acct.clockTask
  putPrev : ∀ c s p, HookCharges K s (K.putPrevOther c s p)
  setCurr : ∀ c s, HookCharges K s (K.setCurrOther c s)
  taskTick : ∀ c s p, HookCharges K s (K.taskTickOther c s p)
  taskFork : ∀ c s p, HookCharges K s (K.taskForkOther c s p)
  switchedFrom : ∀ c s p, HookCharges K s (K.switchedFromOther c s p)
  switchedTo : ∀ c s p, HookCharges K s (K.switchedToOther c s p)
  prioChanged : ∀ c s p oldprio, HookCharges K s (K.prioChangedOther c s p oldprio)
  taskMoveGroup : ∀ c s p onRq, HookCharges K s (K.taskMoveGroupOther c s p onRq)

/-! ## What a part of an operation does -/

/-- The class of the current task. -/
abbrev currClass (s : Sys T E) : SchedClass := (s.task s.core.curr).schedClass

/-- The sum that a task would have had when it was stamped, had time started then at `0`.  It stays
the same while the task is charged. -/
def lead (s : Sys T E) (p : T) : BitVec 64 :=
  (s.acct.se p).sumExecRuntime - (s.acct.se p).execStart

/-- The clock is where the last reading left it, and the stamp of a current WRR task is not ahead of
it. -/
structure Timed (K : Kernel T E) (s : Sys T E) : Prop where
  steady : SteadyClock K.toConfig
  clock : s.acct.clock = s.acct.clockTask
  reading : s.acct.clock.toNat ≤ (K.schedClock s.acct.reads).toNat
  execStart : currClass s = .wrr →
    (s.acct.se s.core.curr).execStart.toNat ≤ s.acct.clockTask.toNat

/-- The current task has been charged by `shared` together with its thread group, and by `alone`
without it; the latter only where `update_curr_wrr` may be called. -/
structure Charged (called : Prop) (s s' : Sys T E) (shared alone : BitVec 64) : Prop where
  group : shared ≠ 0 → currClass s ≠ .idle
  wrr : alone ≠ 0 → called ∧ currClass s = .wrr
  sum : ∀ p ∈ s.core.tasklist, (s'.acct.se p).sumExecRuntime
    = (s.acct.se p).sumExecRuntime + if p = s.core.curr then shared + alone else 0
  ledger : ∀ g, s'.acct.groupRuntime g
    = s.acct.groupRuntime g + if g = (s.task s.core.curr).tgid then shared else 0

/-- New threads have not run, and no thread goes or changes its group. -/
structure Threads (s s' : Sys T E) : Prop where
  tasklist : ∀ p ∈ s.core.tasklist, p ∈ s'.core.tasklist
  fresh : ∀ p ∈ s'.core.tasklist,
    p ∈ s.core.tasklist ∨ p ≠ s.core.curr ∧ (s'.acct.se p).sumExecRuntime = 0
  tgid : ∀ p, p ∈ s.core.tasklist ∨ p = s.core.curr → (s'.task p).tgid = (s.task p).tgid

/-- A part of an operation that leaves the current task and its class alone. -/
structure Accounted (K : Kernel T E) (called : Prop) (s s' : Sys T E) : Prop where
  curr : s'.core.curr = s.core.curr
  threads : Threads s s'
  currClass : (s'.task s.core.curr).schedClass = currClass s
  timed : Timed K s → Timed K s'
  later : Timed K s → s.acct.clockTask.toNat ≤ s'.acct.clockTask.toNat
  lead : Timed K s → Sched.currClass s = .wrr → lead s' s.core.curr = lead s s.core.curr
  charged : ∃ shared alone, Charged called s s' shared alone

section

variable {K : Kernel T E} {called : Prop} {s s' s'' : Sys T E} {p : T}

/-- Nothing is charged. -/
lemma Charged.none
    (hsum : ∀ p ∈ s.core.tasklist, (s'.acct.se p).sumExecRuntime = (s.acct.se p).sumExecRuntime)
    (hledger : s'.acct.groupRuntime = s.acct.groupRuntime) : Charged called s s' 0 0 where
  group := fun h => absurd rfl h
  wrr := fun h => absurd rfl h
  sum := by
    intro p hp
    simp [hsum p hp]
  ledger := by
    intro g
    simp [hledger]

omit [DecidableEq T] in
lemma Threads.of_core (hcore : s'.core = s.core) : Threads s s' where
  tasklist := fun p hp => by rwa [hcore]
  fresh := fun p hp => .inl (by rwa [hcore] at hp)
  tgid := fun p _ => by rw [Sys.task, hcore]

lemma Accounted.refl (s : Sys T E) : Accounted K called s s where
  curr := rfl
  threads := .of_core rfl
  currClass := rfl
  timed := id
  later := fun _ => le_rfl
  lead := fun _ _ => rfl
  charged := ⟨0, 0, .none (fun _ _ => rfl) rfl⟩

/-- Charges add up, also when the current task has changed its class in between. -/
lemma Charged.trans {d w d' w' : BitVec 64} {called' : Prop} (h : Charged called s s' d w)
    (h' : Charged called' s' s'' d' w') (hcurr : s'.core.curr = s.core.curr)
    (hthreads : Threads s s') (hgroup : d' ≠ 0 → Sched.currClass s ≠ .idle)
    (hwrr : w' ≠ 0 → called ∧ Sched.currClass s = .wrr) :
    Charged called s s'' (d + d') (w + w') where
  group := by
    intro hne
    by_cases hd : d = 0
    · exact hgroup fun hd' => hne (by rw [hd, hd', add_zero])
    · exact h.group hd
  wrr := by
    intro hne
    by_cases hw : w = 0
    · exact hwrr fun hw' => hne (by rw [hw, hw', add_zero])
    · exact h.wrr hw
  sum := by
    intro p hp
    rw [h'.sum p (hthreads.tasklist p hp), h.sum p hp, hcurr, add_assoc]
    split_ifs
    · congr 1
      abel
    · rw [add_zero]
  ledger := by
    intro g
    rw [h'.ledger g, h.ledger g, hcurr, hthreads.tgid _ (.inr rfl), add_assoc]
    split_ifs
    · rfl
    · rw [add_zero]

lemma Threads.trans {d w : BitVec 64} {called' : Prop} (h : Threads s s') (h' : Threads s' s'')
    (hcurr : s'.core.curr = s.core.curr) (hcharged : Charged called' s' s'' d w) :
    Threads s s'' where
  tasklist := fun p hp => h'.tasklist p (h.tasklist p hp)
  fresh := by
    intro p hp
    rcases h'.fresh p hp with hlisted | ⟨hne, hsum⟩
    · rcases h.fresh p hlisted with hold | ⟨hne, hsum⟩
      · exact .inl hold
      · refine .inr ⟨hne, ?_⟩
        rw [hcharged.sum p hlisted, hsum, hcurr, if_neg hne, add_zero]
    · exact .inr ⟨hcurr ▸ hne, hsum⟩
  tgid := by
    intro p hp
    have hp' : p ∈ s'.core.tasklist ∨ p = s'.core.curr :=
      hp.imp (h.tasklist p) fun heq => heq.trans hcurr.symm
    rw [h'.tgid p hp', h.tgid p hp]

lemma Accounted.trans (h : Accounted K called s s') (h' : Accounted K called s' s'') :
    Accounted K called s s'' where
  curr := h'.curr.trans h.curr
  threads := by
    rcases h'.charged with ⟨d, w, hcharged⟩
    exact h.threads.trans h'.threads h.curr hcharged
  currClass := by
    have hclass := h'.currClass
    rw [Sched.currClass, h.curr] at hclass
    exact hclass.trans h.currClass
  timed := fun ht => h'.timed (h.timed ht)
  later := fun ht => (h.later ht).trans (h'.later (h.timed ht))
  lead := by
    intro ht hclass
    have hclass' : Sched.currClass s' = .wrr := by
      rw [Sched.currClass, h.curr, h.currClass, hclass]
    have hlead := h'.lead (h.timed ht) hclass'
    rw [h.curr] at hlead
    exact hlead.trans (h.lead ht hclass)
  charged := by
    have hclass : Sched.currClass s' = Sched.currClass s := by
      rw [Sched.currClass, h.curr, h.currClass]
    rcases h.charged with ⟨d, w, hcharged⟩
    rcases h'.charged with ⟨d', w', hcharged'⟩
    exact ⟨_, _, hcharged.trans hcharged' h.curr h.threads (fun hd => hclass ▸ hcharged'.group hd)
      (fun hw => hclass ▸ hcharged'.wrr hw)⟩

lemma Accounted.ite {c : Prop} [Decidable c] {a b : Sys T E} (ha : c → Accounted K called s a)
    (hb : ¬c → Accounted K called s b) : Accounted K called s (if c then a else b) := by
  split_ifs with hc
  · exact ha hc
  · exact hb hc

/-- Where `update_curr_wrr` is not called, it may be. -/
lemma Accounted.mono {called' : Prop} (h : Accounted K called s s') (hcalled : called → called') :
    Accounted K called' s s' := by
  rcases h.charged with ⟨d, w, hcharged⟩
  exact ⟨h.curr, h.threads, h.currClass, h.timed, h.later, h.lead, d, w, hcharged.group,
    fun hw => ⟨hcalled (hcharged.wrr hw).1, (hcharged.wrr hw).2⟩, hcharged.sum, hcharged.ledger⟩

/-! ## The times -/

/-- The execution times, the clock and the ledger. -/
def Acct.times (a : Acct T) :=
  (a.se, a.clock, a.clockTask, a.reads, a.groupRuntime)

omit [DecidableEq T] in
lemma Acct.se_eq {a b : Acct T} (h : a.times = b.times) : a.se = b.se :=
  congrArg (fun t => t.1) h

omit [DecidableEq T] in
lemma Acct.clock_eq {a b : Acct T} (h : a.times = b.times) :
    a.clock = b.clock ∧ a.clockTask = b.clockTask ∧ a.reads = b.reads :=
  ⟨congrArg (fun t => t.2.1) h, congrArg (fun t => t.2.2.1) h, congrArg (fun t => t.2.2.2.1) h⟩

omit [DecidableEq T] in
lemma Acct.groupRuntime_eq {a b : Acct T} (h : a.times = b.times) :
    a.groupRuntime = b.groupRuntime :=
  congrArg (fun t => t.2.2.2.2) h

/-- The times are the same. -/
lemma accounted_of_times (hcurr : s'.core.curr = s.core.curr) (hthreads : Threads s s')
    (hclass : (s'.task s.core.curr).schedClass = currClass s)
    (htimes : s'.acct.times = s.acct.times) : Accounted K called s s' := by
  have hse := Acct.se_eq htimes
  rcases Acct.clock_eq htimes with ⟨hclock, hclockTask, hreads⟩
  refine ⟨hcurr, hthreads, hclass, fun ht => ⟨ht.steady, ?_, ?_, ?_⟩,
    fun _ => by rw [hclockTask], fun _ _ => ?_, 0, 0,
    .none (fun _ _ => by rw [hse]) (Acct.groupRuntime_eq htimes)⟩
  · rw [hclock, hclockTask, ht.clock]
  · rw [hclock, hreads]
    exact ht.reading
  · intro hwrr
    rw [currClass, hcurr, hclass] at hwrr
    rw [hcurr, hse, hclockTask]
    exact ht.execStart hwrr
  · rw [lead, lead, hse]

lemma Keeps.accounted (h : Keeps s s') (htimes : s'.acct.times = s.acct.times) :
    Accounted K called s s' :=
  accounted_of_times (by rw [h.core]) (.of_core h.core) (by rw [Sys.task, h.core]) htimes

/-- What leaves the queues alone too, whatever the other classes queue. -/
lemma accounted_of_quiet (h : Quiet (fun _ : E => ()) s s')
    (htimes : s'.acct.times = s.acct.times) : Accounted K called s s' :=
  h.toKeeps.accounted htimes

lemma threads_setTask (s : Sys T E) (p : T) {f : TaskStruct → TaskStruct}
    (htgid : (f (s.task p)).tgid = (s.task p).tgid) : Threads s (s.setTask p f) := by
  refine ⟨fun _ => id, fun _ => .inl, fun q _ => ?_⟩
  rcases eq_or_ne q p with rfl | hne
  · rw [setTask_task_self, htgid]
  · rw [setTask_task_of_ne _ hne]

lemma accounted_setTask (s : Sys T E) (p : T) {f : TaskStruct → TaskStruct}
    (hclass : s.core.curr = p → (f (s.task p)).schedClass = (s.task p).schedClass)
    (htgid : (f (s.task p)).tgid = (s.task p).tgid) : Accounted K called s (s.setTask p f) := by
  refine accounted_of_times rfl (threads_setTask s p htgid) ?_ rfl
  rcases eq_or_ne s.core.curr p with rfl | hne
  · rw [setTask_task_self, hclass rfl]
  · rw [setTask_task_of_ne _ hne]

/-! ## The clock -/

omit [DecidableEq T] in
lemma updateRqClock_clock (K : Kernel T E) {s : Sys T E} (hskip : ¬0 < s.acct.skipClockUpdate) :
    (updateRqClock K s).acct.clock = K.schedClock s.acct.reads := by
  rw [updateRqClock, if_neg hskip]
  show s.acct.clock + (K.schedClock s.acct.reads - s.acct.clock) = _
  abel

omit [DecidableEq T] in
lemma timed_updateRqClock (h : Timed K s) : Timed K (updateRqClock K s) := by
  by_cases hskip : 0 < s.acct.skipClockUpdate
  · rwa [updateRqClock, if_pos hskip]
  · have hclock := updateRqClock_clock K hskip
    have hclockTask : (updateRqClock K s).acct.clockTask = (updateRqClock K s).acct.clock := by
      rw [updateRqClock, if_neg hskip]
      show s.acct.clockTask + _ = s.acct.clock + _
      rw [h.clock]
    have hreads : (updateRqClock K s).acct.reads = s.acct.reads + 1 := by
      rw [updateRqClock, if_neg hskip]
      rfl
    refine ⟨h.steady, hclockTask.symm, ?_, ?_⟩
    · rw [hclock, hreads]
      exact h.steady.mono _
    · intro hwrr
      rw [hclockTask, hclock]
      rw [updateRqClock, if_neg hskip] at hwrr ⊢
      refine (h.execStart hwrr).trans ?_
      rw [← h.clock]
      exact h.reading

omit [DecidableEq T] in
lemma se_updateRqClock (K : Kernel T E) (s : Sys T E) :
    (updateRqClock K s).acct.se = s.acct.se ∧
      (updateRqClock K s).acct.groupRuntime = s.acct.groupRuntime := by
  rw [updateRqClock]
  split_ifs
  · exact ⟨rfl, rfl⟩
  · exact ⟨rfl, rfl⟩

omit [DecidableEq T] in
lemma updateRqClock_later (h : Timed K s) :
    s.acct.clockTask.toNat ≤ (updateRqClock K s).acct.clockTask.toNat := by
  by_cases hskip : 0 < s.acct.skipClockUpdate
  · rw [updateRqClock, if_pos hskip]
  · have hclock := updateRqClock_clock K hskip
    rw [updateRqClock, if_neg hskip] at hclock ⊢
    show s.acct.clockTask.toNat ≤ (s.acct.clockTask + _).toNat
    rw [← h.clock, show s.acct.clock + _ = _ from hclock]
    exact h.reading

lemma accounted_updateRqClock (s : Sys T E) :
    Accounted K called s (updateRqClock K s) := by
  have hcore := (keeps_updateRqClock K s).core
  rcases se_updateRqClock K s with ⟨hse, hledger⟩
  refine ⟨by rw [hcore], .of_core hcore, by rw [Sys.task, hcore], timed_updateRqClock,
    updateRqClock_later, fun _ _ => ?_, 0, 0, .none (fun _ _ => by rw [hse]) hledger⟩
  rw [lead, lead, hse]

/-! ## Hooks -/

lemma times_applyHook (s : Sys T E) (r : HookResult T E) :
    (s.applyHook r).acct.times = r.acct.times := by
  rw [Sys.applyHook]
  split_ifs
  · rfl
  · rfl

lemma accounted_hook {r : HookResult T E} (h : HookCharges K s r)
    (hcore : s'.core = s.core) (htimes : s'.acct.times = r.acct.times) :
    Accounted K called s s' := by
  have hse := Acct.se_eq htimes
  rcases Acct.clock_eq htimes with ⟨hclock, hclockTask, hreads⟩
  rcases h.charge with ⟨delta, hdelta, hsum, hledger⟩
  -- the clock is that of a state `s₀` with the same tasks
  have hclocks : Timed K s → ∃ s₀, s₀.core = s.core ∧ s₀.acct.se = s.acct.se ∧ Timed K s₀ ∧
      s.acct.clockTask.toNat ≤ s₀.acct.clockTask.toNat ∧ s'.acct.clock = s₀.acct.clock ∧
      s'.acct.clockTask = s₀.acct.clockTask ∧ s'.acct.reads = s₀.acct.reads := by
    intro ht
    rcases h.clock with hsame | hupdated
    · obtain ⟨h₁, h₂, h₃⟩ : _ ∧ _ ∧ _ := by simpa using hsame
      exact ⟨s, rfl, rfl, ht, le_rfl, hclock.trans h₁, hclockTask.trans h₂, hreads.trans h₃⟩
    · obtain ⟨h₁, h₂, h₃⟩ : _ ∧ _ ∧ _ := by simpa using hupdated
      exact ⟨updateRqClock K s, (keeps_updateRqClock K s).core, (se_updateRqClock K s).1,
        timed_updateRqClock ht, updateRqClock_later ht, hclock.trans h₁, hclockTask.trans h₂,
        hreads.trans h₃⟩
  refine ⟨by rw [hcore], .of_core hcore, by rw [Sys.task, hcore], fun ht => ?_, fun ht => ?_,
    fun _ hwrr => ?_, delta, 0, ?_⟩
  · rcases hclocks ht with ⟨s₀, hcore₀, hse₀, ht₀, -, h₁, h₂, h₃⟩
    refine ⟨ht₀.steady, by rw [h₁, h₂, ht₀.clock], by rw [h₁, h₃]; exact ht₀.reading,
      fun hwrr => ?_⟩
    rw [currClass, Sys.task, hcore] at hwrr
    have hexec := ht₀.execStart (by rw [currClass, Sys.task, hcore₀]; exact hwrr)
    rw [hcore, hse, h₂, h.wrr _ hwrr]
    rwa [hse₀, hcore₀] at hexec
  · rcases hclocks ht with ⟨s₀, -, -, -, hlater, -, h₂, -⟩
    rwa [h₂]
  · rw [lead, lead, hse, h.wrr _ hwrr]
  · refine ⟨fun hne hidle => ?_, fun h => absurd rfl h, fun p _ => ?_, fun g => ?_⟩
    · rcases hdelta hne with hstop | hfair
      · exact SchedClass.noConfusion (hidle.symm.trans hstop)
      · exact SchedClass.noConfusion (hidle.symm.trans hfair)
    · rw [hse, hsum, add_zero]
    · rw [Acct.groupRuntime_eq htimes, hledger]

lemma accounted_applyHook {r : HookResult T E}
    (h : HookCharges K s r) : Accounted K called s (s.applyHook r) :=
  accounted_hook h (keeps_applyHook s r).core (times_applyHook s r)

/-! ## Charges -/

/-- The current task has just been charged. -/
def UpToDate (s : Sys T E) : Prop :=
  currClass s = .wrr → (s.acct.se s.core.curr).execStart = s.acct.clockTask

omit [DecidableEq T] in
/-- The time since a stamp that is not ahead of the clock is not cut off. -/
lemma deltaExec_of_le (h : Timed K s) (hwrr : currClass s = .wrr) :
    deltaExec s = s.acct.clockTask - (s.acct.se s.core.curr).execStart := by
  have hle := h.execStart hwrr
  have hreading := h.reading
  have hbounded := h.steady.bounded s.acct.reads
  rw [h.clock] at hreading
  have hmsb : (s.acct.clockTask - (s.acct.se s.core.curr).execStart).msb = false := by
    rw [BitVec.msb_eq_false_iff_two_mul_lt, BitVec.toNat_sub_of_le hle]
    omega
  rw [deltaExec, hmsb]
  rfl

lemma updateCurrWrr_se (hwrr : currClass s = .wrr) (p : T) :
    (updateCurrWrr s).acct.se p =
      if p = s.core.curr then
        { sumExecRuntime := (s.acct.se p).sumExecRuntime + deltaExec s
          execStart := s.acct.clockTask }
      else s.acct.se p := by
  rw [updateCurrWrr, if_pos hwrr]
  show Function.update s.acct.se s.core.curr _ p = _
  rw [Function.update_apply]
  split_ifs with heq
  · rw [heq]
  · rfl

lemma updateCurrWrr_of_ne (hwrr : currClass s ≠ .wrr) : updateCurrWrr s = s := by
  rw [updateCurrWrr, if_neg hwrr]

/-- **`update_curr_wrr` charges the current task only.** -/
lemma updateCurrWrr_others (s : Sys T E) (hp : p ≠ s.core.curr) :
    (updateCurrWrr s).acct.se p = s.acct.se p := by
  by_cases hwrr : currClass s = .wrr
  · rw [updateCurrWrr_se hwrr, if_neg hp]
  · rw [updateCurrWrr_of_ne hwrr]

lemma updateCurrWrr_clock (s : Sys T E) :
    (updateCurrWrr s).acct.clock = s.acct.clock ∧
      (updateCurrWrr s).acct.clockTask = s.acct.clockTask ∧
      (updateCurrWrr s).acct.reads = s.acct.reads ∧
      (updateCurrWrr s).acct.groupRuntime = s.acct.groupRuntime := by
  rw [updateCurrWrr]
  split_ifs
  · exact ⟨rfl, rfl, rfl, rfl⟩
  · exact ⟨rfl, rfl, rfl, rfl⟩

lemma upToDate_updateCurrWrr (s : Sys T E) : UpToDate (updateCurrWrr s) := by
  intro hwrr
  have hkeeps : Quiet (fun _ : E => ()) s (updateCurrWrr s) := quiet_updateCurrWrr s
  have hcore := hkeeps.core
  rw [currClass, Sys.task, hcore] at hwrr
  rw [hcore, updateCurrWrr_se hwrr, if_pos rfl, (updateCurrWrr_clock s).2.1]

lemma accounted_updateCurrWrr (s : Sys T E)
    (hcalled : currClass s = .wrr → called) : Accounted K called s (updateCurrWrr s) := by
  have hkeeps : Quiet (fun _ : E => ()) s (updateCurrWrr s) := quiet_updateCurrWrr s
  have hcore := hkeeps.core
  rcases updateCurrWrr_clock s with ⟨hclock, hclockTask, hreads, hledger⟩
  by_cases hwrr : currClass s = .wrr
  · refine ⟨by rw [hcore], .of_core hcore, by rw [Sys.task, hcore], fun ht => ?_,
      fun _ => by rw [hclockTask], fun ht _ => ?_, 0, deltaExec s, ?_⟩
    · refine ⟨ht.steady, by rw [hclock, hclockTask, ht.clock],
        by rw [hclock, hreads]; exact ht.reading, ?_⟩
      intro hwrr'
      rw [upToDate_updateCurrWrr s hwrr']
    · rw [lead, lead, updateCurrWrr_se hwrr, if_pos rfl, deltaExec_of_le ht hwrr]
      show _ + (_ - _) - s.acct.clockTask = _ - _
      rw [add_sub_assoc, sub_sub_cancel_left, ← sub_eq_add_neg]
    · refine ⟨fun h => absurd rfl h, fun _ => ⟨hcalled hwrr, hwrr⟩, fun p _ => ?_, fun g => ?_⟩
      · rw [updateCurrWrr_se hwrr, zero_add]
        split_ifs
        · rfl
        · rw [add_zero]
      · rw [hledger]
        simp
  · rw [updateCurrWrr_of_ne hwrr]
    exact .refl s

lemma times_chargeRtBandwidth (cfg : Config) (s : Sys T E) (delta : BitVec 64) :
    (chargeRtBandwidth cfg s delta).acct.times = s.acct.times := by
  have hexceeded : ∀ s : Sys T E, (schedRtRuntimeExceeded cfg s).2.acct.times = s.acct.times := by
    intro s
    rw [schedRtRuntimeExceeded]
    split_ifs <;> rfl
  rw [chargeRtBandwidth]
  dsimp only
  split_ifs
  · rfl
  · rfl
  · exact hexceeded _
  · exact hexceeded _

lemma accounted_updateCurrRt (s : Sys T E) :
    Accounted K called s (updateCurrRt K.toConfig s) := by
  have hkeeps : Quiet (fun _ : E => ()) s (updateCurrRt K.toConfig s) := quiet_updateCurrRt _ s
  have hcore := hkeeps.core
  by_cases hrt : currClass s = .rt
  · have hne : currClass s ≠ .wrr := fun hwrr => SchedClass.noConfusion (hrt.symm.trans hwrr)
    -- up to the bandwidth, which is not among the times
    have htimes : (updateCurrRt K.toConfig s).acct.times =
        (accountGroupExecRuntime (s.setSe s.core.curr fun se =>
          { sumExecRuntime := se.sumExecRuntime + deltaExec s, execStart := s.acct.clockTask })
          s.core.curr (deltaExec s)).acct.times := by
      rw [updateCurrRt, if_pos hrt]
      exact times_chargeRtBandwidth _ _ _
    have hse := Acct.se_eq htimes
    rcases Acct.clock_eq htimes with ⟨hclock, hclockTask, hreads⟩
    refine ⟨by rw [hcore], .of_core hcore, by rw [Sys.task, hcore], fun ht => ?_,
      fun _ => by rw [hclockTask]; exact le_rfl, fun _ hwrr => absurd hwrr hne, deltaExec s, 0, ?_⟩
    · refine ⟨ht.steady, by rw [hclock, hclockTask]; exact ht.clock,
        by rw [hclock, hreads]; exact ht.reading, fun hwrr => ?_⟩
      rw [currClass, Sys.task, hcore] at hwrr
      exact absurd hwrr hne
    · refine ⟨fun _ hidle => SchedClass.noConfusion (hrt.symm.trans hidle), fun h => absurd rfl h,
        fun p _ => ?_, fun g => ?_⟩
      · rw [hse, add_zero]
        show (Function.update s.acct.se s.core.curr _ p).sumExecRuntime = _
        rw [Function.update_apply]
        split_ifs with hp
        · rw [hp]
        · rw [add_zero]
      · rw [Acct.groupRuntime_eq htimes]
        show Function.update s.acct.groupRuntime (s.task s.core.curr).tgid _ g = _
        rw [Function.update_apply]
        split_ifs with hg
        · rw [hg]
          rfl
        · rw [add_zero]
  · rw [updateCurrRt, if_neg hrt]
    exact .refl s

/-! ## The queues -/

omit [DecidableEq T] in
@[simp] lemma acct_warnOn (s : Sys T E) (cond : Bool) (w : Warning) :
    (s.warnOn cond w).acct = s.acct := by
  rw [Sys.warnOn]
  split_ifs <;> rfl

omit [DecidableEq T] in
@[simp] lemma acct_setQueues (s : Sys T E) (q : Queues T) : (s.setQueues q).acct = s.acct := rfl

@[simp] lemma acct_reschedTask (s : Sys T E) (p : T) : (s.reschedTask p).acct = s.acct := rfl

@[simp] lemma acct_dequeueWrrStack (s : Sys T E) (p : T) : (dequeueWrrStack s p).acct = s.acct := by
  rw [dequeueWrrStack]
  split_ifs
  · simp [dequeueWrrEntityRaw, decWrrTasks]
  · rfl

@[simp] lemma acct_dequeueRtStack (s : Sys T E) (p : T) : (dequeueRtStack s p).acct = s.acct := by
  rw [dequeueRtStack]
  split_ifs
  · simp [dequeueRtEntityRaw, decRtTasks]
  · rfl

@[simp] lemma acct_requeueTaskWrr (s : Sys T E) (p : T) (head : Bool) :
    (requeueTaskWrr s p head).acct = s.acct := by
  rw [requeueTaskWrr]
  dsimp only
  split_ifs <;> rfl

@[simp] lemma acct_requeueTaskRt (s : Sys T E) (p : T) (head : Bool) :
    (requeueTaskRt s p head).acct = s.acct := by
  rw [requeueTaskRt]
  dsimp only
  split_ifs <;> rfl

lemma times_resetTimeoutWrr (s : Sys T E) (p : T) (flags : EnqueueFlags) :
    (resetTimeoutWrr s p flags).acct.times = s.acct.times := by
  rw [resetTimeoutWrr]
  split_ifs <;> rfl

lemma times_resetTimeoutRt (s : Sys T E) (p : T) (flags : EnqueueFlags) :
    (resetTimeoutRt s p flags).acct.times = s.acct.times := by
  rw [resetTimeoutRt]
  split_ifs <;> rfl

lemma accounted_enqueueTaskWrr (s : Sys T E) (p : T) (flags : EnqueueFlags) :
    Accounted K called s (enqueueTaskWrr s p flags) := by
  refine (counts_enqueueTaskWrr s p flags).toKeeps.accounted ?_
  simp [enqueueTaskWrr, incNrRunning, enqueueWrrEntity, enqueueWrrEntityRaw, incWrrTasks,
    times_resetTimeoutWrr]

lemma accounted_enqueueTaskRt (s : Sys T E) (p : T) (flags : EnqueueFlags) :
    Accounted K called s (enqueueTaskRt s p flags) := by
  refine (counts_enqueueTaskRt s p flags).toKeeps.accounted ?_
  simp [enqueueTaskRt, incNrRunning, enqueueRtEntity, enqueueRtEntityRaw, incRtTasks,
    times_resetTimeoutRt]

lemma accounted_dequeueTaskWrr (s : Sys T E) (p : T)
    (hcalled : currClass s = .wrr → called) : Accounted K called s (dequeueTaskWrr s p) := by
  have hkeeps : Keeps (updateCurrWrr s) (dequeueTaskWrr s p) :=
    ((counts_dequeueWrrStack _ p).step (counts_setQueues _ rfl)).toKeeps
  refine (accounted_updateCurrWrr s hcalled).trans (hkeeps.accounted ?_)
  simp [dequeueTaskWrr, dequeueWrrEntity, decNrRunning]

lemma accounted_dequeueTaskRt (s : Sys T E) (p : T) :
    Accounted K called s (dequeueTaskRt K.toConfig s p) := by
  have hkeeps : Keeps (updateCurrRt K.toConfig s) (dequeueTaskRt K.toConfig s p) :=
    ((counts_dequeueRtStack _ p).step (counts_setQueues _ rfl)).toKeeps
  refine (accounted_updateCurrRt s).trans (hkeeps.accounted ?_)
  simp [dequeueTaskRt, dequeueRtEntity, decNrRunning]

/-! ## The class functions -/

section

variable (hhooks : ChargingHooks K)
include hhooks

lemma accounted_enqueueTask (s : Sys T E) (p : T) (flags : EnqueueFlags) :
    Accounted K called s (enqueueTask K s p flags) := by
  refine (accounted_updateRqClock s).trans ?_
  rw [enqueueTask]
  split
  · exact accounted_enqueueTaskRt _ p flags
  · exact accounted_enqueueTaskWrr _ p flags
  · exact accounted_hook (hhooks.enqueue _ _ p flags) (keeps_applyHook _ _).core
      (times_applyHook _ _)

/-- `update_curr_wrr` is called where a WRR task is taken off. -/
lemma accounted_dequeueTask (s : Sys T E) (p : T) (sleep : Bool)
    (hcalled : (s.task p).schedClass = .wrr → called) :
    Accounted K called s (dequeueTask K s p sleep) := by
  have hclass : (updateRqClock K s).task p = s.task p := (keeps_updateRqClock K s).task p
  refine (accounted_updateRqClock s).trans ?_
  rw [dequeueTask, hclass]
  split
  · exact accounted_dequeueTaskRt _ p
  · exact accounted_dequeueTaskWrr _ p fun _ => hcalled ‹_›
  · exact accounted_hook (hhooks.dequeue _ _ p sleep) (keeps_applyHook _ _).core
      (times_applyHook _ _)

lemma accounted_classPutPrevTask (s : Sys T E) (p : T)
    (hcalled : (s.task p).schedClass = .wrr → called) :
    Accounted K called s (classPutPrevTask K s p) := by
  rw [classPutPrevTask]
  split
  · exact accounted_updateCurrRt s
  · exact accounted_updateCurrWrr s fun _ => hcalled ‹_›
  · exact accounted_applyHook (hhooks.putPrev _ _ p)

lemma accounted_checkPreemptCurr (s : Sys T E) (p : T) :
    Accounted K called s (checkPreemptCurr K s p) := by
  have hrt : ∀ s : Sys T E, Accounted K called s (checkPreemptCurrRt s p) := by
    intro s
    refine accounted_of_quiet (quiet_checkPreemptCurrRt s p) ?_
    rw [checkPreemptCurrRt]
    split_ifs <;> rfl
  have hclass : Accounted K called s (preemptByClass K s p) := by
    rw [preemptByClass]
    refine .ite (fun _ => ?_) fun _ => .ite (fun _ => ?_) fun _ => .refl s
    · rw [classCheckPreemptCurr]
      split
      · exact hrt s
      · exact .refl s
      · exact accounted_applyHook (hhooks.checkPreempt _ _ p)
    · exact accounted_of_quiet (quiet_reschedTask s _) rfl
  refine hclass.trans (.ite (fun _ => ?_) fun _ => .refl _)
  exact accounted_of_times rfl (.of_core rfl) rfl rfl

lemma accounted_checkClassChanged (s : Sys T E) (p : T) (prevClass : SchedClass) (oldprio : ℤ) :
    Accounted K called s (checkClassChanged K s p prevClass oldprio) := by
  have hrt : ∀ s : Sys T E, Accounted K called s (switchedToRt s p) := by
    intro s
    refine accounted_of_quiet (quiet_switchedToRt s p) ?_
    rw [switchedToRt]
    split_ifs <;> rfl
  rw [checkClassChanged]
  refine .ite (fun _ => ?_) fun _ => .ite (fun _ => ?_) fun _ => .refl s
  · have hfrom : Accounted K called s (switchedFrom K prevClass s p) := by
      cases prevClass with
      | rt | wrr => exact .refl s
      | stop | fair | idle => exact accounted_applyHook (hhooks.switchedFrom _ _ p)
    refine hfrom.trans ?_
    rw [switchedTo]
    split
    · exact hrt _
    · exact .refl _
    · exact accounted_applyHook (hhooks.switchedTo _ _ p)
  · rw [prioChanged]
    split
    · refine accounted_of_quiet (quiet_prioChangedRt s p oldprio) ?_
      rw [prioChangedRt]
      split_ifs <;> rfl
    · exact .refl s
    · exact accounted_applyHook (hhooks.prioChanged _ _ p oldprio)

end

end

end Sched
