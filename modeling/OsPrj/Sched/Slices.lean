import OsPrj.Sched.Accounting
import OsPrj.Sched.Invariant

/-!
# Time slices

What `wrr.c` does to its queue, to the time slices and to `TIF_NEED_RESCHED`, on an abstract queue.

* `SliceQueue` — the queue, the slices and the flags; a tick is `SliceQueue.tick`.
* `ShowsWrr` — the state of the class shows such a queue, and **every function of `wrr.c` does to it
  what the operation on the abstract queue says**.
-/

namespace Sched

variable {T E : Type} [DecidableEq T]

/-! ## The abstract queue -/

/-- A queue of tasks, the one that runs, the remaining time slice of each, and who is to be
rescheduled. -/
structure SliceQueue (T : Type) where
  order : List T
  curr : T
  slice : T → ℕ
  resched : T → Bool

namespace SliceQueue

def enqueue (a : SliceQueue T) (p : T) (head : Bool) : SliceQueue T :=
  { a with order := addTo (a.order.erase p) p head }

def dequeue (a : SliceQueue T) (p : T) : SliceQueue T := { a with order := a.order.erase p }

def yield (a : SliceQueue T) : SliceQueue T :=
  { a with order := requeued a.order a.curr false }

/-- The flag of the task that stops running is cleared. -/
def switchTo (a : SliceQueue T) (next : T) : SliceQueue T :=
  { a with curr := next, resched := Function.update a.resched a.curr false }

/-- The slice after a tick, where `0` is first read as a whole quantum. -/
def nextSlice (quantum : T → ℕ) (a : SliceQueue T) (p : T) : ℕ :=
  decTimeSlice (if a.slice p = 0 then quantum p else a.slice p)

/-- A tick of `p`.  A used up slice is filled, and a task that is not alone in the queue goes to its
end and is rescheduled. -/
def tick (quantum : T → ℕ) (a : SliceQueue T) (p : T) : SliceQueue T :=
  if 0 < a.nextSlice quantum p then
    { a with slice := Function.update a.slice p (a.nextSlice quantum p) }
  else
    { order := requeued a.order p false
      curr := a.curr
      slice := Function.update a.slice p (quantum p)
      resched :=
        if p ∈ a.order ∧ 2 ≤ a.order.length then Function.update a.resched p true else a.resched }

end SliceQueue

/-! ## What the accounting leaves alone -/

/-- The tasks, the flags and the slices are the same. -/
structure SameSlices (s s' : Sys T E) : Prop where
  core : s'.core = s.core
  needResched : s'.needResched = s.needResched
  wrr : ∀ p, (s'.acct.wrr p).timeSlice = (s.acct.wrr p).timeSlice
  rt : ∀ p, (s'.acct.rt p).timeSlice = (s.acct.rt p).timeSlice
  wrrThrottled : s'.acct.wrrThrottled = s.acct.wrrThrottled
  rtThrottled : s'.acct.rtThrottled = s.acct.rtThrottled

section

variable {K : Kernel T E} {s s' s'' : Sys T E} {p : T}

omit [DecidableEq T] in
lemma SameSlices.refl (s : Sys T E) : SameSlices s s :=
  ⟨rfl, rfl, fun _ => rfl, fun _ => rfl, rfl, rfl⟩

omit [DecidableEq T] in
lemma SameSlices.trans (h : SameSlices s s') (h' : SameSlices s' s'') : SameSlices s s'' :=
  ⟨h'.core.trans h.core, h'.needResched.trans h.needResched, fun p => (h'.wrr p).trans (h.wrr p),
    fun p => (h'.rt p).trans (h.rt p), h'.wrrThrottled.trans h.wrrThrottled,
    h'.rtThrottled.trans h.rtThrottled⟩

omit [DecidableEq T] in
lemma SameSlices.of_acct (hcore : s'.core = s.core) (hresched : s'.needResched = s.needResched)
    (hacct : s'.acct = s.acct) : SameSlices s s' :=
  ⟨hcore, hresched, fun _ => by rw [hacct], fun _ => by rw [hacct], by rw [hacct], by rw [hacct]⟩

omit [DecidableEq T] in
lemma SameSlices.ite {c : Prop} [Decidable c] {a b : Sys T E} (ha : SameSlices s a)
    (hb : SameSlices s b) : SameSlices s (if c then a else b) := by
  split_ifs
  · exact ha
  · exact hb

lemma sameSlices_setWrr (s : Sys T E) (p : T) {f : SchedWrrEntity → SchedWrrEntity}
    (hf : ∀ e, (f e).timeSlice = e.timeSlice) : SameSlices s (s.setWrr p f) := by
  refine ⟨rfl, rfl, fun q => ?_, fun _ => rfl, rfl, rfl⟩
  show (Function.update s.acct.wrr p _ q).timeSlice = _
  rw [Function.update_apply]
  split_ifs with hq
  · rw [hf, hq]
  · rfl

lemma sameSlices_setRt (s : Sys T E) (p : T) {f : SchedRtEntity → SchedRtEntity}
    (hf : ∀ e, (f e).timeSlice = e.timeSlice) : SameSlices s (s.setRt p f) := by
  refine ⟨rfl, rfl, fun _ => rfl, fun q => ?_, rfl, rfl⟩
  show (Function.update s.acct.rt p _ q).timeSlice = _
  rw [Function.update_apply]
  split_ifs with hq
  · rw [hf, hq]
  · rfl

omit [DecidableEq T] in
lemma sameSlices_updateRqClock (s : Sys T E) : SameSlices s (updateRqClock K s) :=
  .ite (.refl s) ⟨rfl, rfl, fun _ => rfl, fun _ => rfl, rfl, rfl⟩

lemma sameSlices_updateCurrWrr (s : Sys T E) : SameSlices s (updateCurrWrr s) :=
  .ite ⟨rfl, rfl, fun _ => rfl, fun _ => rfl, rfl, rfl⟩ (.refl s)

lemma sameSlices_watchdogWrr (cfg : Config) (s : Sys T E) (p : T) :
    SameSlices s (watchdogWrr cfg s p) := by
  refine .ite (.refl s) ((sameSlices_setWrr s p ?_).trans (.ite ?_ (.refl _)))
  · exact fun _ => rfl
  · exact ⟨rfl, rfl, fun _ => rfl, fun _ => rfl, rfl, rfl⟩

lemma sameSlices_requeueTaskWrr (s : Sys T E) (p : T) (head : Bool) :
    SameSlices s (requeueTaskWrr s p head) := by
  refine .of_acct (counts_requeueTaskWrr s p head).core ?_ (acct_requeueTaskWrr s p head)
  rw [requeueTaskWrr]
  split_ifs <;> rfl

lemma sameSlices_dequeueWrrStack (s : Sys T E) (p : T) : SameSlices s (dequeueWrrStack s p) := by
  refine .of_acct (counts_dequeueWrrStack s p).core ?_ (acct_dequeueWrrStack s p)
  rw [dequeueWrrStack]
  split_ifs
  · rw [dequeueWrrEntityRaw, decWrrTasks, Sys.warnOn]
    split_ifs <;> rfl
  · rfl

lemma sameSlices_enqueueTaskWrr (s : Sys T E) (p : T) (flags : EnqueueFlags) :
    SameSlices s (enqueueTaskWrr s p flags) := by
  have hreset : SameSlices s (resetTimeoutWrr s p flags) :=
    .ite (sameSlices_setWrr s p fun _ => rfl) (.refl s)
  exact (hreset.trans (sameSlices_dequeueWrrStack _ p)).trans (.of_acct rfl rfl rfl)

lemma sameSlices_dequeueTaskWrr (s : Sys T E) (p : T) : SameSlices s (dequeueTaskWrr s p) :=
  ((sameSlices_updateCurrWrr s).trans (sameSlices_dequeueWrrStack _ p)).trans
    (.of_acct rfl rfl rfl)

/-! ## wrr.c shows the abstract queue -/

/-- The queues are sound or not whatever else the state is. -/
lemma Sound.of_queues {wrr : List T} {rt : ℤ → List T} (h : Sound s wrr rt)
    (hqueues : s'.queues = s.queues) (hwarn : s'.warnings = s.warnings) : Sound s' wrr rt :=
  ⟨hqueues ▸ h.represents, hqueues ▸ h.wrrNr, hqueues ▸ h.rtNr, hqueues ▸ h.bitmap, h.range,
    hwarn ▸ h.noWarning⟩

/-- The tasks of `S` are WRR tasks, and the class has the queue `a`; `quantum` is what the group of
each task gives. -/
structure ShowsWrr (cfg : Config) (S : Set T) (quantum : T → ℕ) (s : Sys T E) (a : SliceQueue T) :
    Prop where
  sound : ∃ rt, Sound s a.order rt
  members : ∀ p ∈ a.order, p ∈ S
  curr : s.core.curr = a.curr
  slice : ∀ p ∈ S, (s.acct.wrr p).timeSlice = a.slice p
  resched : s.needResched = a.resched
  throttled : s.acct.wrrThrottled = false
  policy : ∀ p ∈ S, (s.task p).policy = schedWrr
  quantum : ∀ p ∈ S, wrrTimeslice cfg (s.task p).schedTaskGroup = quantum p

variable {cfg : Config} {S : Set T} {quantum : T → ℕ} {a : SliceQueue T}

/-- An operation that may move tasks in the queue. -/
lemma ShowsWrr.move (h : ShowsWrr cfg S quantum s a) (hs : SameSlices s s') {l : List T}
    (hsound : ∃ rt, Sound s' l rt) (hl : ∀ p ∈ l, p ∈ S) :
    ShowsWrr cfg S quantum s' { a with order := l } where
  sound := hsound
  members := hl
  curr := by rw [hs.core, h.curr]
  slice := fun p hp => (hs.wrr p).trans (h.slice p hp)
  resched := hs.needResched.trans h.resched
  throttled := hs.wrrThrottled.trans h.throttled
  policy := fun p hp => by
    rw [Sys.task, hs.core]
    exact h.policy p hp
  quantum := fun p hp => by
    rw [Sys.task, hs.core]
    exact h.quantum p hp

/-- An operation that leaves the queue alone. -/
lemma ShowsWrr.quiet {X : Type} {view : E → X} (h : ShowsWrr cfg S quantum s a)
    (hs : SameSlices s s') (hq : Quiet view s s') : ShowsWrr cfg S quantum s' a := by
  rcases h.sound with ⟨rt, hsound⟩
  exact h.move hs ⟨rt, hsound.quiet hq⟩ h.members

lemma ShowsWrr.wrrQueue (h : ShowsWrr cfg S quantum s a) : WrrQueue s a.order := by
  rcases h.sound with ⟨rt, hsound⟩
  have hvisits := hsound.represents.visits .wrrQueue
  rwa [queueLists, List.map_map] at hvisits

theorem ShowsWrr.enqueueTaskWrr (h : ShowsWrr cfg S quantum s a) (hp : p ∈ S)
    (flags : EnqueueFlags) :
    ShowsWrr cfg S quantum (enqueueTaskWrr s p flags) (a.enqueue p flags.head) := by
  rcases h.sound with ⟨rt, hsound⟩
  refine h.move (sameSlices_enqueueTaskWrr s p flags) ⟨rt, hsound.enqueueTaskWrr p flags⟩ ?_
  intro q hq
  rcases mem_addTo.mp hq with rfl | hmem
  · exact hp
  · exact h.members q (List.mem_of_mem_erase hmem)

theorem ShowsWrr.dequeueTaskWrr (h : ShowsWrr cfg S quantum s a) (p : T) :
    ShowsWrr cfg S quantum (dequeueTaskWrr s p) (a.dequeue p) := by
  rcases h.sound with ⟨rt, hsound⟩
  exact h.move (sameSlices_dequeueTaskWrr s p) ⟨rt, hsound.dequeueTaskWrr p⟩
    fun q hq => h.members q (List.mem_of_mem_erase hq)

theorem ShowsWrr.yieldTaskWrr (h : ShowsWrr cfg S quantum s a) :
    ShowsWrr cfg S quantum (yieldTaskWrr s) a.yield := by
  rcases h.sound with ⟨rt, hsound⟩
  rw [Sched.yieldTaskWrr, h.curr]
  exact h.move (sameSlices_requeueTaskWrr s _ false) ⟨rt, hsound.requeueTaskWrr _ false⟩
    fun q hq => h.members q (mem_requeued.mp hq)

/-- The queue is not empty when its counter says so, and its head is picked. -/
theorem ShowsWrr.pickNextTaskWrr (h : ShowsWrr cfg S quantum s a) :
    ∃ s', pickNextTaskWrr s = .ok (a.order.head?, s') ∧ ShowsWrr cfg S quantum s' a ∧
      s'.core = s.core := by
  rcases h.sound with ⟨rt, hsound⟩
  refine ⟨_, hsound.pickNextTaskWrr h.throttled, ?_⟩
  cases a.order.head? with
  | none => exact ⟨h, rfl⟩
  | some p => exact ⟨⟨⟨rt, hsound.of_queues rfl rfl⟩, h.members, h.curr, h.slice, h.resched,
      h.throttled, h.policy, h.quantum⟩, rfl⟩

/-- `rq->curr = next` at the end of `__schedule`. -/
theorem ShowsWrr.switchTo (h : ShowsWrr cfg S quantum s a) (next : T) :
    ShowsWrr cfg S quantum (switchTo s s.core.curr next) (a.switchTo next) := by
  rcases h.sound with ⟨rt, hsound⟩
  refine ⟨⟨rt, hsound.of_queues rfl rfl⟩, h.members, rfl, h.slice, ?_, h.throttled, h.policy,
    h.quantum⟩
  show Function.update s.needResched s.core.curr false = Function.update a.resched a.curr false
  rw [h.resched, h.curr]

/-! ### The tick -/

/-- The pointers of a `run_list` tell whether its task shares the queue with another one. -/
lemma Sound.wrr_shared_iff {wrr : List T} {rt : ℤ → List T} (h : Sound s wrr rt) (p : T) :
    s.queues.links.prev (.node (.wrr p)) ≠ s.queues.links.next (.node (.wrr p)) ↔
      p ∈ wrr ∧ 2 ≤ wrr.length := by
  by_cases hp : p ∈ wrr
  · have hmem : Entity.wrr p ∈ queueLists wrr rt .wrrQueue := List.mem_map_of_mem hp
    have hiff := h.represents.prev_ne_next_iff hmem
    rw [queueLists, List.length_map] at hiff
    rw [hiff, eq_true hp, true_and]
  · rw [h.represents.prev_eq_next_of_notMem (wrr_notMem_lists hp)]
    simp [hp]

/-- Alone or not queued, a task stays where it is. -/
lemma requeued_of_not_shared {l : List T} (h : ¬(p ∈ l ∧ 2 ≤ l.length)) :
    requeued l p false = l := by
  rw [requeued]
  split_ifs with hp
  · have hlen : l.length = 1 := by
      have hpos := List.length_pos_of_mem hp
      have hlt : ¬2 ≤ l.length := fun hle => h ⟨hp, hle⟩
      omega
    rcases List.length_eq_one_iff.mp hlen with ⟨q, rfl⟩
    obtain rfl := List.mem_singleton.mp hp
    simp [addTo]
  · rfl

/-- Write one slice. -/
lemma ShowsWrr.setSlice (h : ShowsWrr cfg S quantum s a) (p : T) (n : ℕ) :
    ShowsWrr cfg S quantum (s.setWrr p fun e => { e with timeSlice := n })
      { a with slice := Function.update a.slice p n } := by
  rcases h.sound with ⟨rt, hsound⟩
  refine ⟨⟨rt, hsound.of_queues rfl rfl⟩, h.members, h.curr, fun q hq => ?_, h.resched,
    h.throttled, h.policy, h.quantum⟩
  show (Function.update s.acct.wrr p _ q).timeSlice = Function.update a.slice p n q
  rw [Function.update_apply, Function.update_apply]
  split_ifs
  · rfl
  · exact h.slice q hq

lemma ShowsWrr.incPrio (h : ShowsWrr cfg S quantum s a) (p : T) :
    ShowsWrr cfg S quantum (s.setTask p incPrioWrr) a := by
  rcases h.sound with ⟨rt, hsound⟩
  have htask : ∀ q, ((s.setTask p incPrioWrr).task q).policy = (s.task q).policy ∧
      ((s.setTask p incPrioWrr).task q).schedTaskGroup = (s.task q).schedTaskGroup := by
    intro q
    rcases eq_or_ne q p with rfl | hne
    · rw [setTask_task_self]
      exact ⟨rfl, rfl⟩
    · rw [setTask_task_of_ne _ hne]
      exact ⟨rfl, rfl⟩
  exact ⟨⟨rt, hsound.of_queues rfl rfl⟩, h.members, h.curr, h.slice, h.resched, h.throttled,
    fun q hq => (htask q).1.trans (h.policy q hq),
    fun q hq => (congrArg _ (htask q).2).trans (h.quantum q hq)⟩

lemma ShowsWrr.nextSlice (h : ShowsWrr cfg S quantum s a) (hp : p ∈ S) :
    nextTimeSliceWrr cfg s p = a.nextSlice quantum p := by
  rw [nextTimeSliceWrr, SliceQueue.nextSlice, h.slice p hp, h.quantum p hp]

lemma ShowsWrr.sliceTickWrr (h : ShowsWrr cfg S quantum s a) (hp : p ∈ S) :
    ShowsWrr cfg S quantum (sliceTickWrr cfg s p) (a.tick quantum p) := by
  rw [Sched.sliceTickWrr, if_neg (not_not.mpr (h.policy p hp)), h.nextSlice hp, SliceQueue.tick]
  by_cases hnext : 0 < a.nextSlice quantum p
  · rw [if_pos hnext, if_pos hnext]
    exact (h.setSlice p _).incPrio p
  · rw [if_neg hnext, if_neg hnext, expireWrr, h.quantum p hp]
    have hset := h.setSlice p (quantum p)
    rcases hset.sound with ⟨rt, hsound⟩
    have hmoved := hset.move (sameSlices_requeueTaskWrr _ p false)
      ⟨rt, hsound.requeueTaskWrr p false⟩ fun q hq => h.members q (mem_requeued.mp hq)
    by_cases hshared : p ∈ a.order ∧ 2 ≤ a.order.length
    · rw [if_pos ((hsound.wrr_shared_iff p).mpr hshared), if_pos hshared]
      rcases hmoved.sound with ⟨rt', hsound'⟩
      refine ⟨⟨rt', hsound'.of_queues rfl rfl⟩, hmoved.members, hmoved.curr, hmoved.slice, ?_,
        hmoved.throttled, hmoved.policy, hmoved.quantum⟩
      exact congrArg (fun f => Function.update f p true) hmoved.resched
    · rw [if_neg fun hne => hshared ((hsound.wrr_shared_iff p).mp hne), if_neg hshared]
      rw [requeued_of_not_shared hshared]
      exact hset

theorem ShowsWrr.taskTickWrr (h : ShowsWrr cfg S quantum s a) (hp : p ∈ S) :
    ShowsWrr cfg S quantum (taskTickWrr cfg s p) (a.tick quantum p) := by
  have hupdate : Quiet id s (updateCurrWrr s) := quiet_updateCurrWrr s
  have hwatch : Quiet id (updateCurrWrr s) (watchdogWrr cfg (updateCurrWrr s) p) :=
    quiet_watchdogWrr cfg _ p
  exact ((h.quiet (sameSlices_updateCurrWrr s) hupdate).quiet
    (sameSlices_watchdogWrr cfg _ p) hwatch).sliceTickWrr hp

end

end Sched
