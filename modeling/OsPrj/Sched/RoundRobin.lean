import OsPrj.Lib.RoundRobin
import OsPrj.Sched.NoBypass
import OsPrj.Sched.Preemption
import OsPrj.Sched.Slices

/-!
# Exact weighted round robin

The runnable tasks are WRR tasks, and nothing happens but ticks.

* `OnlyWrr` — the tasks of a list with their slices are the runnable ones.
* `Turns.tick` — a tick, with the `__schedule` that it may ask for, is one of the abstract round
  robin.
* `round_robin` — **every task runs for exactly its slice, one after the other**, and from then on
  for its quantum in every round.
-/

namespace Sched

open RoundRobin

variable {T E : Type} [DecidableEq T] {K : Kernel T E} {queued : E → SchedClass → Finset T}
  {q : T → ℕ} {s s' : Sys T E} {L L' : List (T × ℕ)} {p : T}

/-- The abstract queue of a state. -/
def sliceQueue (s : Sys T E) (order : List T) : SliceQueue T where
  order := order
  curr := s.core.curr
  slice := fun p => (s.acct.wrr p).timeSlice
  resched := s.needResched

/-- The runnable tasks are those of `L`, WRR tasks with their slices; one of them is current. -/
structure OnlyWrr (K : Kernel T E) (queued : E → SchedClass → Finset T) (q : T → ℕ) (s : Sys T E)
    (L : List (T × ℕ)) : Prop where
  inv : Inv K queued s (L.map Prod.fst)
  only : ∀ p, (s.task p).onRq = true → p ∈ L.map Prod.fst
  curr : s.core.curr ∈ L.map Prod.fst
  running : ∀ p ∈ L.map Prod.fst, (s.task p).state = taskRunning
  policy : ∀ p ∈ L.map Prod.fst, (s.task p).policy = schedWrr
  quantum : ∀ p ∈ L.map Prod.fst, wrrTimeslice K.toConfig (s.task p).schedTaskGroup = q p
  slice : ∀ x ∈ L, (s.acct.wrr x.1).timeSlice = x.2

lemma OnlyWrr.shows (h : OnlyWrr K queued q s L) :
    ShowsWrr K.toConfig {p | p ∈ L.map Prod.fst} q s (sliceQueue s (L.map Prod.fst)) := by
  rcases h.inv.layout.sound with ⟨rt, hsound, -⟩
  exact ⟨⟨rt, hsound⟩, fun _ hp => hp, rfl, fun _ _ => rfl, rfl, h.inv.wrrThrottled, h.policy,
    h.quantum⟩

/-- What the abstract queue tells is enough to know the rest. -/
lemma OnlyWrr.of_shows {S : Set T} {a : SliceQueue T} (hinv : ∃ wrr, Inv K queued s wrr)
    (h : ShowsWrr K.toConfig S q s a) (horder : a.order = L.map Prod.fst)
    (hslice : ∀ x ∈ L, a.slice x.1 = x.2)
    (honly : ∀ p, (s.task p).onRq = true → p ∈ L.map Prod.fst)
    (hcurr : s.core.curr ∈ L.map Prod.fst)
    (hrunning : ∀ p ∈ L.map Prod.fst, (s.task p).state = taskRunning) :
    OnlyWrr K queued q s L := by
  rcases hinv with ⟨wrr, hinv⟩
  obtain rfl : wrr = L.map Prod.fst := by
    rw [← horder]
    exact hinv.layout.wrrQueue.unique h.wrrQueue
  have hmem : ∀ p ∈ L.map Prod.fst, p ∈ S := fun p hp => h.members p (horder ▸ hp)
  exact ⟨hinv, honly, hcurr, hrunning, fun p hp => h.policy p (hmem p hp),
    fun p hp => h.quantum p (hmem p hp), fun x hx =>
      (h.slice x.1 (hmem _ (List.mem_map_of_mem hx))).trans (hslice x hx)⟩

lemma OnlyWrr.schedClass (h : OnlyWrr K queued q s L) (hp : p ∈ L.map Prod.fst) :
    (s.task p).onRq = true ∧ (s.task p).schedClass = .wrr :=
  (h.inv.mem_wrr p).mp hp

/-! ## The tick -/

lemma decTimeSlice_of_pos {n : ℕ} (hn : 0 < n) (hfits : n < 2 ^ 32) : decTimeSlice n = n - 1 := by
  rw [decTimeSlice]
  omega

/-- On a queue whose head runs, a tick of the abstract queue is one of the round robin; and when
another task comes to the head, the old one is to be rescheduled. -/
lemma tick_order_eq {a : SliceQueue T} {x : T × ℕ} {l : List (T × ℕ)}
    (horder : a.order = (x :: l).map Prod.fst) (hnodup : a.order.Nodup)
    (hslice : ∀ y ∈ x :: l, a.slice y.1 = y.2) (hpos : 0 < left q x) (hfits : left q x < 2 ^ 32) :
    (a.tick q x.1).order = (tick q (x :: l)).map Prod.fst ∧
      (∀ y ∈ tick q (x :: l), (a.tick q x.1).slice y.1 = y.2) ∧
      (((tick q (x :: l)).map Prod.fst).head? = some x.1 ∨ (a.tick q x.1).resched x.1 = true) := by
  have hnext : a.nextSlice q x.1 = left q x - 1 := by
    rw [SliceQueue.nextSlice, hslice x List.mem_cons_self, ← decTimeSlice_of_pos hpos hfits]
    rfl
  have hne : ∀ y ∈ l, y.1 ≠ x.1 := by
    rintro y hy heq
    rw [horder, List.map_cons, List.nodup_cons] at hnodup
    exact hnodup.1 (heq ▸ List.mem_map_of_mem hy)
  have hkeeps : ∀ (n : ℕ), ∀ y ∈ l, Function.update a.slice x.1 n y.1 = y.2 := by
    intro n y hy
    rw [Function.update_of_ne (hne y hy)]
    exact hslice y (List.mem_cons_of_mem x hy)
  rw [SliceQueue.tick, hnext]
  by_cases hlast : left q x = 1
  · rw [tick_of_eq hlast, if_neg (by omega)]
    refine ⟨?_, fun y hy => ?_, ?_⟩
    · show requeued a.order x.1 false = _
      simp [horder, requeued, addTo, full]
    · show Function.update a.slice x.1 (q x.1) y.1 = y.2
      rcases List.mem_append.mp hy with hy | hy
      · exact hkeeps _ y hy
      · rw [List.mem_singleton.mp hy]
        exact Function.update_self _ _ _
    · -- alone it stays at the head
      cases l with
      | nil => exact .inl rfl
      | cons z l =>
          right
          show (if x.1 ∈ a.order ∧ 2 ≤ a.order.length then Function.update a.resched x.1 true
            else a.resched) x.1 = true
          rw [if_pos (by simp [horder])]
          exact Function.update_self _ _ _
  · rw [tick_of_ne hlast, if_pos (by omega)]
    refine ⟨horder, fun y hy => ?_, .inl rfl⟩
    show Function.update a.slice x.1 _ y.1 = y.2
    rcases List.mem_cons.mp hy with rfl | hy
    · exact Function.update_self _ _ _
    · exact hkeeps _ y hy

/-- A tick changes no task but for the priority of the current one. -/
lemma task_schedulerTick (s : Sys T E) (r : T) :
    (schedulerTick K s).core.curr = s.core.curr ∧
      ((schedulerTick K s).task r).onRq = (s.task r).onRq ∧
      ((schedulerTick K s).task r).state = (s.task r).state := by
  have hclock := keeps_updateRqClock K s
  rcases keeps_classTaskTick K (updateRqClock K s) with hsame | ⟨-, hinc⟩
  · have hcore : (schedulerTick K s).core = s.core := (hclock.trans hsame).core
    rw [Sys.task, hcore]
    exact ⟨rfl, rfl, rfl⟩
  · have hcore : (schedulerTick K s).core = (s.setTask s.core.curr incPrioWrr).core := by
      rw [schedulerTick, hinc.core, hclock.core, setTask_core, hclock.core, setTask_core]
    rw [Sys.task, hcore]
    refine ⟨rfl, ?_⟩
    rcases eq_or_ne r s.core.curr with rfl | hne
    · have hself := setTask_task_self s s.core.curr incPrioWrr
      rw [Sys.task] at hself
      rw [hself]
      exact ⟨rfl, rfl⟩
    · have hother := setTask_task_of_ne (f := incPrioWrr) s hne
      rw [Sys.task] at hother
      rw [hother]
      exact ⟨rfl, rfl⟩

/-- The tick of the machine. -/
theorem OnlyWrr.schedulerTick (hlaws : Laws K queued) (hq : ∀ p, 0 < q p ∧ q p < 2 ^ 32)
    (h : OnlyWrr K queued q s L) (hhead : (L.map Prod.fst).head? = some s.core.curr)
    (hfits : ∀ x ∈ L, left q x < 2 ^ 32) :
    OnlyWrr K queued q (schedulerTick K s) (tick q L) ∧
      (schedulerTick K s).core.curr = s.core.curr ∧
      (((tick q L).map Prod.fst).head? = some s.core.curr ∨
        (schedulerTick K s).needResched s.core.curr = true) := by
  cases L with
  | nil => exact absurd hhead (by simp)
  | cons x l =>
      have hcurr : x.1 = s.core.curr := by simpa using hhead
      have hclass := (h.schedClass h.curr).2
      have hclock : Quiet id s (updateRqClock K s) := quiet_updateRqClock K s
      have htick : Sched.schedulerTick K s = taskTickWrr K.toConfig (updateRqClock K s) x.1 := by
        rw [Sched.schedulerTick, classTaskTick, hclock.task, hclock.core, hclass, hcurr]
      have hshows := (h.shows.quiet (sameSlices_updateRqClock s) hclock).taskTickWrr
        (p := x.1) (hcurr ▸ h.curr)
      rw [← htick] at hshows
      rcases tick_order_eq (a := sliceQueue s ((x :: l).map Prod.fst)) rfl h.inv.layout.wrr_nodup
        h.slice (left_pos (fun p => (hq p).1) x) (hfits x List.mem_cons_self) with
        ⟨horder, hslice, hresched⟩
      have hmem : ∀ p, p ∈ (tick q (x :: l)).map Prod.fst ↔ p ∈ (x :: l).map Prod.fst :=
        fun p => (tick_map_fst_perm (x :: l)).mem_iff
      have htask := task_schedulerTick (K := K) s
      have hinv : ∃ wrr, Inv K queued (Sched.schedulerTick K s) wrr := by
        have hop : Allowed s .schedulerTick := trivial
        rcases h.inv.step hlaws hop with ⟨s', wrr', hstep, hstepped⟩
        obtain rfl := Except.ok.inj hstep
        exact ⟨wrr', hstepped.inv⟩
      refine ⟨.of_shows hinv hshows horder hslice (fun p hp => ?_) ?_ (fun p hp => ?_),
        (htask s.core.curr).1, ?_⟩
      · rw [(htask p).2.1] at hp
        exact (hmem p).mpr (h.only p hp)
      · rw [(htask s.core.curr).1]
        exact (hmem _).mpr h.curr
      · rw [(htask p).2.2]
        exact h.running p ((hmem p).mp hp)
      · rw [hshows.resched, ← hcurr]
        exact hresched

/-! ## schedule -/

/-- A task that does not sleep stays in the queue. -/
lemma scheduleOut_running (hrunning : (s.task s.core.curr).state = taskRunning)
    (a : ScheduleArgs T) : scheduleOut K s a = s := by
  rw [scheduleOut, hrunning]
  exact if_neg fun h => h.1 rfl

lemma sameSlices_putPrevTask (hclass : (s.task p).schedClass = .wrr) :
    SameSlices s (putPrevTask K s p) := by
  have hclock : SameSlices s (if (s.task p).onRq ∨ s.acct.skipClockUpdate < 0 then
      updateRqClock K s else s) := .ite (sameSlices_updateRqClock s) (.refl s)
  rw [putPrevTask, classPutPrevTask, Sys.task, hclock.core, hclass]
  exact hclock.trans (sameSlices_updateCurrWrr _)

/-- **The head of the queue runs next.** -/
theorem OnlyWrr.schedule (hlaws : Laws K queued) (h : OnlyWrr K queued q s L)
    (a : ScheduleArgs T) : ∃ s', schedule K s a = .ok s' ∧ OnlyWrr K queued q s' L ∧
      (L.map Prod.fst).head? = some s'.core.curr := by
  have hout := scheduleOut_running (K := K) (h.running _ h.curr)
  -- the arguments do not matter
  have hargs : Sched.schedule K s a = Sched.schedule K s ⟨false, false, none⟩ := by
    rw [Sched.schedule, Sched.schedule, hout, hout]
  rcases h.inv.schedule hlaws ⟨false, false, none⟩ (by simp) with
    ⟨s₁, wrr', pre, c, suf, next, s₂, hmoves, hs₁, hclasses, hpre, hoffer, hschedule, hinv⟩
  rw [hout] at hs₁
  have hquiet : Quiet queued s s₁ := hs₁ ▸ quiet_putPrevTask hlaws.toQuietHooks s _
  have hsame : SameSlices s s₁ := hs₁ ▸ sameSlices_putPrevTask (h.schedClass h.curr).2
  rcases (h.shows.quiet hsame hquiet).pickNextTaskWrr with ⟨s₃, hpick, hshows, hcore⟩
  rcases List.exists_cons_of_ne_nil (List.ne_nil_of_mem h.curr) with ⟨r, l, hL⟩
  have hhead : (sliceQueue s (L.map Prod.fst)).order.head? = some r := congrArg List.head? hL
  rw [hhead] at hpick
  rcases hmoves.consistent.offered hlaws hoffer with ⟨-, hclass, hnext⟩
  have hc : c = .wrr := by
    rcases hnext with hidle | hon
    · -- the idle class comes after one that has a task to offer
      have hc : c = .idle := by
        rw [← hclass, hidle, Sys.task, hmoves.consistent.core.idle]
        rfl
      have hdecline : pickNextTaskWrr s₁ = .ok (none, s₁) :=
        hpre .wrr (mem_of_rank_lt hclasses (by rw [hc]; decide))
      rw [hdecline] at hpick
      exact absurd hpick (by simp)
    · rw [hquiet.task] at hon hclass
      exact hclass.symm.trans (h.schedClass (h.only next hon)).2
  subst hc
  obtain ⟨rfl, rfl⟩ : r = next ∧ s₃ = s₂ := by
    have heq := hpick.symm.trans (show pickNextTaskWrr s₁ = .ok (some next, s₂) from hoffer)
    simpa using heq
  have hcore' : s₃.core = s.core := hcore.trans hquiet.core
  have hshows' := hshows.switchTo r
  rw [hcore'] at hshows'
  refine ⟨_, hargs.trans hschedule, .of_shows ⟨wrr', hinv⟩ hshows' rfl h.slice (fun p hp => ?_) ?_
    (fun p hp => ?_), congrArg List.head? hL⟩
  · replace hp : (s₃.core.task p).onRq = true := hp
    rw [hcore'] at hp
    exact h.only p hp
  · show r ∈ L.map Prod.fst
    rw [hL]
    exact List.mem_cons_self
  · show (s₃.core.task p).state = taskRunning
    rw [hcore']
    exact h.running p hp

/-! ## Ticks -/

/-- A tick, and the `__schedule` that it asks for. -/
def tickAndSchedule (K : Kernel T E) (a : ScheduleArgs T) (s : Sys T E) : Except Fault (Sys T E) :=
  if (schedulerTick K s).needResched (schedulerTick K s).core.curr then
    schedule K (schedulerTick K s) a
  else .ok (schedulerTick K s)

/-- `k` ticks. -/
def ticks (K : Kernel T E) (a : ℕ → ScheduleArgs T) (s : Sys T E) : ℕ → Except Fault (Sys T E)
  | 0 => .ok s
  | k + 1 => do
      let s ← ticks K a s k
      tickAndSchedule K (a k) s

/-- Between the ticks the head of the queue is current. -/
structure Turns (K : Kernel T E) (queued : E → SchedClass → Finset T) (q : T → ℕ) (s : Sys T E)
    (L : List (T × ℕ)) : Prop extends OnlyWrr K queued q s L where
  head : (L.map Prod.fst).head? = some s.core.curr
  fits : ∀ x ∈ L, left q x < 2 ^ 32

/-- **A tick of the machine is one of the round robin.** -/
theorem Turns.tick (hlaws : Laws K queued) (hq : ∀ p, 0 < q p ∧ q p < 2 ^ 32)
    (h : Turns K queued q s L) (a : ScheduleArgs T) :
    ∃ s', tickAndSchedule K a s = .ok s' ∧ Turns K queued q s' (tick q L) := by
  rcases h.toOnlyWrr.schedulerTick hlaws hq h.head h.fits with ⟨hticked, hcurr, hresched⟩
  have hfits := left_tick_lt (fun p => (hq p).2) h.fits
  rw [tickAndSchedule]
  by_cases hneed : (schedulerTick K s).needResched (schedulerTick K s).core.curr = true
  · rw [if_pos hneed]
    rcases hticked.schedule hlaws a with ⟨s', hschedule, hs', hhead⟩
    exact ⟨s', hschedule, hs', hhead, hfits⟩
  · rw [if_neg hneed]
    rw [hcurr] at hneed
    refine ⟨_, rfl, hticked, ?_, hfits⟩
    rw [hcurr]
    exact hresched.resolve_right hneed

/-- **So is every number of ticks.** -/
theorem Turns.ticks (hlaws : Laws K queued) (hq : ∀ p, 0 < q p ∧ q p < 2 ^ 32)
    (h : Turns K queued q s L) (a : ℕ → ScheduleArgs T) (k : ℕ) :
    ∃ s', Sched.ticks K a s k = .ok s' ∧ Turns K queued q s' ((RoundRobin.tick q)^[k] L) := by
  induction k with
  | zero => exact ⟨s, rfl, h⟩
  | succ k ih =>
      rcases ih with ⟨s₁, hrun, hs₁⟩
      rcases hs₁.tick hlaws hq (a k) with ⟨s₂, htick, hs₂⟩
      refine ⟨s₂, ?_, ?_⟩
      · rw [Sched.ticks, hrun]
        exact htick
      · rw [Function.iterate_succ_apply']
        exact hs₂

/-- The remaining slice of a task, where `0` is read as a whole one. -/
def sliceLeft (cfg : Config) (s : Sys T E) (p : T) : ℕ :=
  if (s.acct.wrr p).timeSlice = 0 then getRrIntervalWrr cfg s p else (s.acct.wrr p).timeSlice

lemma OnlyWrr.sliceLeft (h : OnlyWrr K queued q s L) {x : T × ℕ} (hx : x ∈ L) :
    sliceLeft K.toConfig s x.1 = left q x := by
  have hp : x.1 ∈ L.map Prod.fst := List.mem_map_of_mem hx
  rw [Sched.sliceLeft, getRrIntervalWrr, if_pos (h.policy _ hp), h.quantum _ hp, h.slice x hx, left]

/-- The counter does not wrap. -/
lemma Turns.nextTimeSlice (hq : ∀ p, 0 < q p ∧ q p < 2 ^ 32) (h : Turns K queued q s L) :
    0 < Sched.sliceLeft K.toConfig s s.core.curr ∧
      nextTimeSliceWrr K.toConfig s s.core.curr
        = Sched.sliceLeft K.toConfig s s.core.curr - 1 := by
  rcases List.mem_map.mp h.curr with ⟨x, hx, hcurr⟩
  rw [← hcurr, h.toOnlyWrr.sliceLeft hx]
  have hpos := left_pos (fun p => (hq p).1) x
  refine ⟨hpos, ?_⟩
  rw [nextTimeSliceWrr, h.slice x hx, h.quantum _ (List.mem_map_of_mem hx),
    ← decTimeSlice_of_pos hpos (h.fits x hx)]
  rfl

/-! ## The whole schedule -/

/-- The tasks of a queue with their slices. -/
def slices (s : Sys T E) (ts : List T) : List (T × ℕ) :=
  ts.map fun p => (p, (s.acct.wrr p).timeSlice)

omit [DecidableEq T] in
@[simp] lemma slices_map_fst (s : Sys T E) (ts : List T) : (slices s ts).map Prod.fst = ts := by
  rw [slices, List.map_map]
  exact List.map_id ts

omit [DecidableEq T] in
lemma slices_append (s : Sys T E) (l : List T) (p : T) (l' : List T) :
    slices s (l ++ p :: l') = slices s l ++ (p, (s.acct.wrr p).timeSlice) :: slices s l' := by
  rw [slices, List.map_append, List.map_cons]
  rfl

/-- The remaining slices of the tasks of a list, added up. -/
def sliceSum (cfg : Config) (s : Sys T E) (ts : List T) : ℕ := (ts.map (sliceLeft cfg s)).sum

/-- Their quanta, added up. -/
def quantumSum (cfg : Config) (s : Sys T E) (ts : List T) : ℕ :=
  (ts.map (getRrIntervalWrr cfg s)).sum

/-- With `HZ` of 100 or more every quantum is at least one tick. -/
lemma wrrTimeslice_bounds {cfg : Config} (hz : 100 ≤ cfg.hz) (groupPath : String) :
    0 < wrrTimeslice cfg groupPath ∧ wrrTimeslice cfg groupPath < 2 ^ 32 := by
  have hfits := cfg.hz_fits
  rw [wrrTimeslice, wrrTimesliceFore, wrrTimesliceBack]
  split_ifs <;> omega

omit [DecidableEq T] in
lemma load_slices {cfg : Config} {ts : List T} (h : ∀ p ∈ ts, getRrIntervalWrr cfg s p = q p) :
    load q (slices s ts) = sliceSum cfg s ts := by
  rw [load, slices, sliceSum, List.map_map]
  refine congrArg List.sum (List.map_congr_left fun p hp => ?_)
  rw [sliceLeft, h p hp]
  rfl

omit [DecidableEq T] in
lemma load_full {cfg : Config} {ts : List T} (h : ∀ p ∈ ts, getRrIntervalWrr cfg s p = q p) :
    load q ((slices s ts).map (full q)) = quantumSum cfg s ts := by
  rw [load, slices, quantumSum, List.map_map, List.map_map]
  refine congrArg List.sum (List.map_congr_left fun p hp => ?_)
  rw [h p hp]
  exact left_full _

/-- Where the runnable tasks are the WRR tasks of the queue, and the first is current. -/
lemma turns_slices {ts : List T} (hinv : Inv K queued s ts) (hq : ∀ p, 0 < q p ∧ q p < 2 ^ 32)
    (hcurr : ts.head? = some s.core.curr) (honly : ∀ p, (s.task p).onRq = true → p ∈ ts)
    (hpolicy : ∀ p ∈ ts, (s.task p).policy = schedWrr)
    (hrunning : ∀ p ∈ ts, (s.task p).state = taskRunning)
    (hquantum : ∀ p ∈ ts, wrrTimeslice K.toConfig (s.task p).schedTaskGroup = q p)
    (hfits : ∀ p ∈ ts, (s.acct.wrr p).timeSlice < 2 ^ 32) :
    Turns K queued q s (slices s ts) where
  inv := by rwa [slices_map_fst]
  only := by rwa [slices_map_fst]
  curr := by
    rw [slices_map_fst]
    exact List.mem_of_mem_head? hcurr
  running := by rwa [slices_map_fst]
  policy := by rwa [slices_map_fst]
  quantum := by rwa [slices_map_fst]
  slice := by
    intro x hx
    rcases List.mem_map.mp hx with ⟨p, -, rfl⟩
    rfl
  head := by rwa [slices_map_fst]
  fits := by
    intro x hx
    rcases List.mem_map.mp hx with ⟨p, hp, rfl⟩
    rw [left]
    split_ifs
    · exact (hq p).2
    · exact hfits p hp

omit [DecidableEq T] in
/-- The queue after a round, and after any number of further ones. -/
lemma iterate_tick_slices {cfg : Config} {ts : List T} (hq : ∀ p, 0 < q p)
    (h : ∀ p ∈ ts, getRrIntervalWrr cfg s p = q p) (r : ℕ) :
    (tick q)^[sliceSum cfg s ts + r * quantumSum cfg s ts] (slices s ts)
      = (slices s ts).map (full q) := by
  have hperiod := (isPeriodicPt_tick hq (slices s ts)).const_mul r
  rw [load_full h] at hperiod
  rw [add_comm, Function.iterate_add_apply, ← load_slices h, iterate_tick_round hq]
  exact hperiod

/-- The slices have no part in the invariant. -/
lemma Inv.setWrr {wrr : List T} (h : Inv K queued s wrr) (p : T)
    (f : SchedWrrEntity → SchedWrrEntity) : Inv K queued (s.setWrr p f) wrr :=
  ⟨⟨h.core, h.layout.congr rfl rfl id, h.wrrThrottled⟩, h.curr⟩

/-- **Exact weighted round robin.**  From a state that keeps the invariant, in which the WRR tasks
`ts` are the runnable ones and the first is current, with any slices that are `unsigned int`s, and
with ticks only: every task runs for what is left of its slice, one after the other; then the queue
is as before and the slices are full; and so it is after every further round, in which every task
runs for its quantum.  The counter never wraps. -/
theorem round_robin (hlaws : Laws K queued) {wrr : List T} (h : Inv K queued s wrr)
    (hz : 100 ≤ K.hz) {ts : List T} (hqueue : WrrQueue s ts)
    (hcurr : ts.head? = some s.core.curr) (honly : ∀ p, (s.task p).onRq = true → p ∈ ts)
    (hpolicy : ∀ p ∈ ts, (s.task p).policy = schedWrr)
    (hrunning : ∀ p ∈ ts, (s.task p).state = taskRunning)
    (hfits : ∀ p ∈ ts, (s.acct.wrr p).timeSlice < 2 ^ 32) (a : ℕ → ScheduleArgs T) :
    ∃ m : ℕ → Sys T E, (∀ k, ticks K a s k = .ok (m k)) ∧
      (∀ l p l', ts = l ++ p :: l' → ∀ k, sliceSum K.toConfig s l ≤ k →
        k < sliceSum K.toConfig s l + sliceLeft K.toConfig s p → (m k).core.curr = p) ∧
      (∀ r k, k = sliceSum K.toConfig s ts + r * quantumSum K.toConfig s ts →
        WrrQueue (m k) ts ∧ (m k).core.curr = s.core.curr ∧
          (∀ p ∈ ts, ((m k).acct.wrr p).timeSlice = getRrIntervalWrr K.toConfig s p) ∧
          ∀ l p l', ts = l ++ p :: l' → ∀ j, quantumSum K.toConfig s l ≤ j →
            j < quantumSum K.toConfig s l + getRrIntervalWrr K.toConfig s p →
            (m (k + j)).core.curr = p) ∧
      ∀ k, 0 < sliceLeft K.toConfig (m k) (m k).core.curr ∧
        nextTimeSliceWrr K.toConfig (m k) (m k).core.curr
          = sliceLeft K.toConfig (m k) (m k).core.curr - 1 := by
  obtain rfl := h.layout.wrrQueue.unique hqueue
  obtain ⟨q, hqdef⟩ : ∃ q : T → ℕ, ∀ p, wrrTimeslice K.toConfig (s.task p).schedTaskGroup = q p :=
    ⟨_, fun _ => rfl⟩
  have hq : ∀ p, 0 < q p ∧ q p < 2 ^ 32 := fun p => hqdef p ▸ wrrTimeslice_bounds hz _
  have hpos : ∀ p, 0 < q p := fun p => (hq p).1
  have hinterval : ∀ p ∈ wrr, getRrIntervalWrr K.toConfig s p = q p := by
    intro p hp
    rw [getRrIntervalWrr, if_pos (hpolicy p hp), hqdef]
  have hleft : ∀ p ∈ wrr, left q (p, (s.acct.wrr p).timeSlice) = sliceLeft K.toConfig s p := by
    intro p hp
    rw [sliceLeft, hinterval p hp]
    rfl
  have hturns := turns_slices h hq hcurr honly hpolicy hrunning (fun p _ => hqdef p) hfits
  choose m hm hmturns using fun k => hturns.ticks hlaws hq a k
  have hhead : ∀ k x L, (tick q)^[k] (slices s wrr) = x :: L → (m k).core.curr = x.1 := by
    intro k x L hx
    have hcurr := (hmturns k).head
    rw [hx] at hcurr
    exact (Option.some.inj hcurr).symm
  refine ⟨m, hm, ?_, ?_, fun k => (hmturns k).nextTimeSlice hq⟩
  · rintro l p l' rfl k hk hk'
    have hmem : ∀ r ∈ l, r ∈ l ++ p :: l' := fun r hr => List.mem_append_left _ hr
    rw [← load_slices fun r hr => hinterval r (hmem r hr)] at hk hk'
    rw [← hleft p (by simp)] at hk'
    rcases iterate_tick_turn hpos (slices s l) (p, _) (slices s l') hk hk' with ⟨n, hn⟩
    rw [← slices_append] at hn
    exact hhead k _ _ hn
  · rintro r k rfl
    have hround := iterate_tick_slices (s := s) hpos hinterval r
    have hturn := hmturns (sliceSum K.toConfig s wrr + r * quantumSum K.toConfig s wrr)
    rw [hround] at hturn
    have hfst : ((slices s wrr).map (full q)).map Prod.fst = wrr := by
      rw [List.map_map]
      exact slices_map_fst s wrr
    refine ⟨?_, ?_, fun p hp => ?_, ?_⟩
    · have hqueue := hturn.inv.layout.wrrQueue
      rwa [hfst] at hqueue
    · have hhead := hturn.head
      rw [hfst, hcurr] at hhead
      exact (Option.some.inj hhead).symm
    · rw [hinterval p hp]
      exact hturn.slice (p, q p) (List.mem_map.mpr ⟨_, List.mem_map_of_mem hp, rfl⟩)
    · rintro l p l' rfl j hj hj'
      have hmem : ∀ r ∈ l, r ∈ l ++ p :: l' := fun r hr => List.mem_append_left _ hr
      rw [← load_full fun r hr => hinterval r (hmem r hr)] at hj hj'
      rw [hinterval p (by simp), ← left_full (q := q) (p, (s.acct.wrr p).timeSlice)] at hj'
      rcases iterate_tick_turn hpos ((slices s l).map (full q)) (full q (p, _))
        ((slices s l').map (full q)) hj hj' with ⟨n, hn⟩
      rw [← List.map_cons, ← List.map_append, ← slices_append, ← hround,
        ← Function.iterate_add_apply, add_comm] at hn
      exact hhead _ _ _ hn

/-- A task of the root group, with a slice of 25 ticks left, and one of another group: after the 25
ticks of the first and the one of the second it is ten and one in every round. -/
theorem round_robin_two :
    ∃ s, ∃ m : ℕ → Sys ℕ (SchedClass → List ℕ),
      runOps (fifoKernel smallConfig) Allowed (init (fifoKernel smallConfig) smallBoot)
        [.fork 2, .wakeUpNewTask 2, .schedule ⟨false, false, none⟩, .fork 3, .wakeUpNewTask 3,
          .setscheduler 2 schedWrr 0 false, .setscheduler 3 schedWrr 0 false,
          .schedMoveTask 3 "/bg"] = some s ∧
      (∀ k, ticks (fifoKernel smallConfig) (fun _ => ⟨false, false, none⟩)
        (s.setWrr 2 fun e => { e with timeSlice := 25 }) k = .ok (m k)) ∧
      (∀ j < 25, (m j).core.curr = 2) ∧ (m 25).core.curr = 3 ∧
      ∀ r, (∀ j < 10, (m (26 + r * 11 + j)).core.curr = 2) ∧
        (m (26 + r * 11 + 10)).core.curr = 3 := by
  have hrun : ∃ s, runOps (fifoKernel smallConfig) Allowed
      (init (fifoKernel smallConfig) smallBoot)
      [.fork 2, .wakeUpNewTask 2, .schedule ⟨false, false, none⟩, .fork 3, .wakeUpNewTask 3,
        .setscheduler 2 schedWrr 0 false, .setscheduler 3 schedWrr 0 false,
        .schedMoveTask 3 "/bg"] = some s ∧
      (WrrQueue s [2, 3] ∧ s.core.curr = 2 ∧
        (∀ p ∈ s.core.tasklist, (s.task p).onRq = true → p ∈ [2, 3]) ∧
        (∀ p ∈ [2, 3], (s.task p).policy = schedWrr) ∧
        (∀ p ∈ [2, 3], (s.task p).state = taskRunning)) ∧
      (s.acct.wrr 3).timeSlice = 0 ∧ getRrIntervalWrr smallConfig s 2 = 10 ∧
        getRrIntervalWrr smallConfig s 3 = 1 := exists_of_any (by decide +kernel)
  rcases hrun with
    ⟨s, hs, ⟨hqueue, hcurr, hlisted, hpolicy, hrunning⟩, hslice, hfore, hback⟩
  have hreach : Reachable (fifoKernel smallConfig) smallBoot s := Run.runOps _ .init hs
  rcases hreach.inv (fifoKernel_laws smallConfig) with ⟨wrr, hinv⟩
  have honly : ∀ p, (s.task p).onRq = true → p ∈ [2, 3] := fun p hp =>
    hlisted p (hinv.core.listed p hp) hp
  obtain ⟨s', hs'⟩ : ∃ s', s.setWrr 2 (fun e => { e with timeSlice := 25 }) = s' := ⟨_, rfl⟩
  have hslice₂ : (s'.acct.wrr 2).timeSlice = 25 := by
    rw [← hs']
    rfl
  have hslice₃ : (s'.acct.wrr 3).timeSlice = 0 := by
    rw [← hs']
    exact hslice
  have hfits : ∀ p ∈ [2, 3], (s'.acct.wrr p).timeSlice < 2 ^ 32 := by
    simp [hslice₂, hslice₃]
  have hfore' : getRrIntervalWrr smallConfig s' 2 = 10 := by
    rw [← hs']
    exact hfore
  have hback' : getRrIntervalWrr smallConfig s' 3 = 1 := by
    rw [← hs']
    exact hback
  have hinv' := hinv.setWrr 2 fun e => { e with timeSlice := 25 }
  rw [hs'] at hinv'
  have hqueue' : WrrQueue s' [2, 3] := hs' ▸ hqueue
  rcases round_robin (fifoKernel_laws smallConfig) hinv' (by decide) hqueue'
    (hs' ▸ congrArg some hcurr.symm) (hs' ▸ honly) (hs' ▸ hpolicy) (hs' ▸ hrunning) hfits
    fun _ => ⟨false, false, none⟩ with ⟨m, hm, hfirst, hrounds, -⟩
  have hleft : sliceLeft smallConfig s' 2 = 25 ∧ sliceLeft smallConfig s' 3 = 1 := by
    simp [sliceLeft, hslice₂, hslice₃, hback']
  have hsum : sliceSum smallConfig s' [] = 0 ∧ sliceSum smallConfig s' [2] = 25 ∧
      sliceSum smallConfig s' [2, 3] = 26 := by
    simp [sliceSum, hleft]
  have hquantum : quantumSum smallConfig s' [] = 0 ∧ quantumSum smallConfig s' [2] = 10 ∧
      quantumSum smallConfig s' [2, 3] = 11 := by
    simp [quantumSum, hfore', hback']
  refine ⟨s, m, hs, hs' ▸ hm, fun j hj => hfirst [] 2 [3] rfl j (Nat.zero_le j) ?_,
    hfirst [2] 3 [] rfl 25 hsum.2.1.le ?_, fun r => ?_⟩
  · show j < sliceSum smallConfig s' [] + sliceLeft smallConfig s' 2
    omega
  · show 25 < sliceSum smallConfig s' [2] + sliceLeft smallConfig s' 3
    omega
  have hk : 26 + r * 11
      = sliceSum smallConfig s' [2, 3] + r * quantumSum smallConfig s' [2, 3] := by
    rw [hsum.2.2, hquantum.2.2]
  rcases hrounds r (26 + r * 11) hk with ⟨-, -, -, hturns⟩
  refine ⟨fun j hj => hturns [] 2 [3] rfl j (Nat.zero_le j) ?_,
    hturns [2] 3 [] rfl 10 hquantum.2.1.le ?_⟩
  · show j < quantumSum smallConfig s' [] + getRrIntervalWrr smallConfig s' 2
    omega
  · show 10 < quantumSum smallConfig s' [2] + getRrIntervalWrr smallConfig s' 3
    omega

end Sched
