import OsPrj.Sched.Slices

/-!
# Foreground WRR tasks are SCHED_RR tasks

`wrr.c` is made from `rt.c`.

* `ShowsRt` — `SCHED_RR` tasks of one priority show an abstract queue with time slices too, and
  every function of `rt.c` does to it what the one of `wrr.c` does.
* `wrr_is_rr` — so **the two classes cannot be told apart** on tasks of the root group.
-/

namespace Sched

open ListHead

variable {T E : Type} [DecidableEq T] {K : Kernel T E} {cfg : Config} {S : Set T} {i : ℤ}
  {s s' : Sys T E} {a : SliceQueue T} {p : T}

/-! ## rt.c shows the abstract queue -/

/-- The tasks of `S` are `SCHED_RR` tasks of priority `i`, and the class has the queue `a`, all of
it in the list of that priority. -/
structure ShowsRt (S : Set T) (i : ℤ) (s : Sys T E) (a : SliceQueue T) : Prop where
  sound : ∃ wrr, Sound s wrr (Function.update (fun _ => []) i a.order)
  range : 0 ≤ i ∧ i < maxRtPrio
  members : ∀ p ∈ a.order, p ∈ S
  curr : s.core.curr = a.curr
  slice : ∀ p ∈ S, (s.acct.rt p).timeSlice = a.slice p
  resched : s.needResched = a.resched
  throttled : s.acct.rtThrottled = false
  policy : ∀ p ∈ S, (s.task p).policy = schedRr
  prio : ∀ p ∈ S, (s.task p).prio = i

lemma sameSlices_updateCurrRt (hband : cfg.rtBandwidthEnabled = false) (s : Sys T E) :
    SameSlices s (updateCurrRt cfg s) := by
  rw [updateCurrRt]
  refine .ite ?_ (.refl s)
  simp only [chargeRtBandwidth, hband, Bool.not_false, if_true]
  exact ⟨rfl, rfl, fun _ => rfl, fun _ => rfl, rfl, rfl⟩

lemma sameSlices_watchdogRt (cfg : Config) (s : Sys T E) (p : T) :
    SameSlices s (watchdogRt cfg s p) := by
  refine .ite (.refl s) ((sameSlices_setRt s p ?_).trans (.ite ?_ (.refl _)))
  · exact fun _ => rfl
  · exact ⟨rfl, rfl, fun _ => rfl, fun _ => rfl, rfl, rfl⟩

lemma sameSlices_requeueTaskRt (s : Sys T E) (p : T) (head : Bool) :
    SameSlices s (requeueTaskRt s p head) := by
  refine .of_acct (counts_requeueTaskRt s p head).core ?_ (acct_requeueTaskRt s p head)
  rw [requeueTaskRt]
  split_ifs <;> rfl

omit [DecidableEq T] in
lemma needResched_warnOn (s : Sys T E) (cond : Bool) (w : Warning) :
    (s.warnOn cond w).needResched = s.needResched := by
  rw [Sys.warnOn]
  split_ifs <;> rfl

lemma sameSlices_dequeueRtStack (s : Sys T E) (p : T) : SameSlices s (dequeueRtStack s p) := by
  refine .of_acct (counts_dequeueRtStack s p).core ?_ (acct_dequeueRtStack s p)
  rw [dequeueRtStack]
  split_ifs
  · exact (needResched_warnOn _ _ _).trans (needResched_warnOn _ _ _)
  · rfl

lemma sameSlices_enqueueTaskRt (s : Sys T E) (p : T) (flags : EnqueueFlags) :
    SameSlices s (enqueueTaskRt s p flags) := by
  have hreset : SameSlices s (resetTimeoutRt s p flags) :=
    .ite (sameSlices_setRt s p fun _ => rfl) (.refl s)
  refine hreset.trans (.of_acct ?_ ?_ ?_)
  · rw [(counts_enqueueTaskRt s p flags).core, hreset.core]
  · exact (needResched_warnOn _ _ _).trans (sameSlices_dequeueRtStack _ p).needResched
  · simp [enqueueTaskRt, incNrRunning, enqueueRtEntity, enqueueRtEntityRaw, incRtTasks]

lemma sameSlices_dequeueTaskRt (hband : cfg.rtBandwidthEnabled = false) (s : Sys T E) (p : T) :
    SameSlices s (dequeueTaskRt cfg s p) :=
  ((sameSlices_updateCurrRt hband s).trans (sameSlices_dequeueRtStack _ p)).trans
    (.of_acct rfl rfl rfl)

lemma ShowsRt.move (h : ShowsRt S i s a) (hs : SameSlices s s') {l : List T}
    (hsound : ∃ wrr, Sound s' wrr (Function.update (fun _ => []) i l)) (hl : ∀ p ∈ l, p ∈ S) :
    ShowsRt S i s' { a with order := l } where
  sound := hsound
  range := h.range
  members := hl
  curr := by rw [hs.core, h.curr]
  slice := fun p hp => (hs.rt p).trans (h.slice p hp)
  resched := hs.needResched.trans h.resched
  throttled := hs.rtThrottled.trans h.throttled
  policy := fun p hp => by
    rw [Sys.task, hs.core]
    exact h.policy p hp
  prio := fun p hp => by
    rw [Sys.task, hs.core]
    exact h.prio p hp

lemma ShowsRt.quiet {X : Type} {view : E → X} (h : ShowsRt S i s a) (hs : SameSlices s s')
    (hq : Quiet view s s') : ShowsRt S i s' a := by
  rcases h.sound with ⟨wrr, hsound⟩
  exact h.move hs ⟨wrr, hsound.quiet hq⟩ h.members

/-- A task that is queued is so in the list of its priority. -/
lemma ShowsRt.queued_prio (h : ShowsRt S i s a) (j : ℤ)
    (hp : p ∈ Function.update (fun _ => []) i a.order j) : j = (s.task p).prio := by
  rcases eq_or_ne j i with rfl | hne
  · rw [Function.update_self] at hp
    exact (h.prio p (h.members p hp)).symm
  · rw [Function.update_of_ne hne] at hp
    exact absurd hp List.not_mem_nil

/-- The list of one priority changes. -/
lemma ShowsRt.sound_of {l : List T} {f : List T → List T} {wrr : List T} (hp : (s.task p).prio = i)
    (hsound : Sound s' wrr (Function.update (Function.update (fun _ => []) i l) (s.task p).prio
      (f (Function.update (fun _ => []) i l (s.task p).prio)))) :
    Sound s' wrr (Function.update (fun _ => []) i (f l)) := by
  rwa [hp, Function.update_self, Function.update_idem] at hsound

theorem ShowsRt.enqueueTaskRt (h : ShowsRt S i s a) (hp : p ∈ S) (flags : EnqueueFlags) :
    ShowsRt S i (enqueueTaskRt s p flags) (a.enqueue p flags.head) := by
  rcases h.sound with ⟨wrr, hsound⟩
  have hprio := h.prio p hp
  have hqueued := hsound.enqueueTaskRt p flags (fun j => h.queued_prio j)
    (by rw [hprio]; exact h.range)
  refine h.move (sameSlices_enqueueTaskRt s p flags)
    ⟨wrr, ShowsRt.sound_of (f := fun l => addTo (l.erase p) p flags.head) hprio hqueued⟩ ?_
  intro q hq
  rcases mem_addTo.mp hq with rfl | hmem
  · exact hp
  · exact h.members q (List.mem_of_mem_erase hmem)

theorem ShowsRt.dequeueTaskRt (hband : cfg.rtBandwidthEnabled = false) (h : ShowsRt S i s a)
    (hp : p ∈ S) : ShowsRt S i (dequeueTaskRt cfg s p) (a.dequeue p) := by
  rcases h.sound with ⟨wrr, hsound⟩
  have hqueued := hsound.dequeueTaskRt cfg p fun j => h.queued_prio j
  exact h.move (sameSlices_dequeueTaskRt hband s p)
    ⟨wrr, ShowsRt.sound_of (f := fun l => l.erase p) (h.prio p hp) hqueued⟩
    fun q hq => h.members q (List.mem_of_mem_erase hq)

/-- A task that is not one of `S` is in no list. -/
lemma ShowsRt.requeueTaskRt (h : ShowsRt S i s a) (p : T) :
    ShowsRt S i (requeueTaskRt s p false) { a with order := requeued a.order p false } := by
  rcases h.sound with ⟨wrr, hsound⟩
  have hqueued := hsound.requeueTaskRt p false fun j => h.queued_prio j
  refine h.move (sameSlices_requeueTaskRt s p false) ⟨wrr, ?_⟩
    fun q hq => h.members q (mem_requeued.mp hq)
  by_cases hp : p ∈ S
  · exact ShowsRt.sound_of (f := fun l => requeued l p false) (h.prio p hp) hqueued
  · have hnot : p ∉ a.order := fun hmem => hp (h.members p hmem)
    have hnil : p ∉ Function.update (fun _ => []) i a.order (s.task p).prio := by
      rcases eq_or_ne (s.task p).prio i with heq | hne
      · rwa [heq, Function.update_self]
      · rw [Function.update_of_ne hne]
        exact List.not_mem_nil
    rw [requeued, if_neg hnil, Function.update_eq_self] at hqueued
    rwa [requeued, if_neg hnot]

theorem ShowsRt.yieldTaskRt (h : ShowsRt S i s a) : ShowsRt S i (yieldTaskRt s) a.yield := by
  rw [Sched.yieldTaskRt, h.curr]
  exact h.requeueTaskRt a.curr

/-- The first nonempty list is the one of priority `i`. -/
theorem ShowsRt.pickNextTaskRt (h : ShowsRt S i s a) :
    ∃ s', pickNextTaskRt s = .ok (a.order.head?, s') ∧ ShowsRt S i s' a := by
  rcases h.sound with ⟨wrr, hsound⟩
  have hself : (Function.update (fun _ => []) i a.order : ℤ → List T) i = a.order :=
    Function.update_self _ _ _
  rcases hsound.pickNextTaskRt h.throttled with ⟨hnil, hpick⟩ | ⟨j, p, l, hl, -, hpick⟩
  · rw [← hself, hnil i]
    exact ⟨s, hpick, h⟩
  · obtain rfl : j = i := by
      by_contra hne
      rw [Function.update_of_ne hne] at hl
      exact List.cons_ne_nil p l hl.symm
    rw [hself] at hl
    rw [hpick, hl]
    exact ⟨_, rfl, ⟨wrr, hsound.of_queues rfl rfl⟩, h.range, h.members, h.curr, h.slice, h.resched,
      h.throttled, h.policy, h.prio⟩

theorem ShowsRt.switchTo (h : ShowsRt S i s a) (next : T) :
    ShowsRt S i (switchTo s s.core.curr next) (a.switchTo next) := by
  rcases h.sound with ⟨wrr, hsound⟩
  refine ⟨⟨wrr, hsound.of_queues rfl rfl⟩, h.range, h.members, rfl, h.slice, ?_, h.throttled,
    h.policy, h.prio⟩
  show Function.update s.needResched s.core.curr false = Function.update a.resched a.curr false
  rw [h.resched, h.curr]

/-! ### The tick -/

/-- Slices of `0` are there only where a quantum is `0`, on a machine with less than ten ticks a
second. -/
def SliceQueue.Filled (quantum : T → ℕ) (S : Set T) (a : SliceQueue T) : Prop :=
  ∀ p ∈ S, a.slice p = 0 → quantum p = 0

lemma SliceQueue.Filled.tick {quantum : T → ℕ} (h : a.Filled quantum S) (p : T) :
    (a.tick quantum p).Filled quantum S := by
  intro q hq hzero
  rw [SliceQueue.tick] at hzero
  by_cases hnext : 0 < a.nextSlice quantum p
  · rw [if_pos hnext] at hzero
    replace hzero : Function.update a.slice p (a.nextSlice quantum p) q = 0 := hzero
    rw [Function.update_apply] at hzero
    split_ifs at hzero
    · omega
    · exact h q hq hzero
  · rw [if_neg hnext] at hzero
    replace hzero : Function.update a.slice p (quantum p) q = 0 := hzero
    rw [Function.update_apply] at hzero
    split_ifs at hzero with heq
    · rw [heq, hzero]
    · exact h q hq hzero

omit [DecidableEq T] in
/-- Then it makes no difference that `0` is read as a whole quantum. -/
lemma SliceQueue.Filled.nextSlice {quantum : T → ℕ} (h : a.Filled quantum S) (hp : p ∈ S) :
    a.nextSlice quantum p = decTimeSlice (a.slice p) := by
  rw [SliceQueue.nextSlice]
  split_ifs with hzero
  · rw [h p hp hzero, hzero]
  · rfl

lemma ShowsRt.shared_iff {l : List T} {wrr : List T}
    (h : Sound s wrr (Function.update (fun _ => []) i l)) (p : T) :
    s.queues.links.prev (.node (.rt p)) ≠ s.queues.links.next (.node (.rt p)) ↔
      p ∈ l ∧ 2 ≤ l.length := by
  have hself : (Function.update (fun _ => []) i l : ℤ → List T) i = l := Function.update_self _ _ _
  by_cases hp : p ∈ l
  · have hmem : Entity.rt p ∈ queueLists wrr (Function.update (fun _ => []) i l) (.queue i) :=
      List.mem_map_of_mem (by rwa [hself])
    have hiff := h.represents.prev_ne_next_iff hmem
    rw [queueLists, List.length_map, hself] at hiff
    rw [hiff, eq_true hp, true_and]
  · have hnot : ∀ j, p ∉ (Function.update (fun _ => []) i l : ℤ → List T) j := by
      intro j
      rcases eq_or_ne j i with rfl | hne
      · rwa [Function.update_self]
      · rw [Function.update_of_ne hne]
        exact List.not_mem_nil
    rw [h.represents.prev_eq_next_of_notMem (rt_notMem_lists hnot)]
    simp [hp]

lemma ShowsRt.setSlice (h : ShowsRt S i s a) (p : T) (n : ℕ) :
    ShowsRt S i (s.setRt p fun e => { e with timeSlice := n })
      { a with slice := Function.update a.slice p n } := by
  rcases h.sound with ⟨wrr, hsound⟩
  refine ⟨⟨wrr, hsound.of_queues rfl rfl⟩, h.range, h.members, h.curr, fun q hq => ?_, h.resched,
    h.throttled, h.policy, h.prio⟩
  show (Function.update s.acct.rt p _ q).timeSlice = Function.update a.slice p n q
  rw [Function.update_apply, Function.update_apply]
  split_ifs
  · rfl
  · exact h.slice q hq

lemma ShowsRt.sliceTickRt (h : ShowsRt S i s a) (hfilled : a.Filled (fun _ => rrTimeslice cfg) S)
    (hp : p ∈ S) : ShowsRt S i (sliceTickRt cfg s p) (a.tick (fun _ => rrTimeslice cfg) p) := by
  rw [Sched.sliceTickRt, if_neg (not_not.mpr (h.policy p hp)), h.slice p hp, SliceQueue.tick,
    hfilled.nextSlice hp]
  by_cases hnext : 0 < decTimeSlice (a.slice p)
  · rw [if_pos (Nat.pos_iff_ne_zero.mp hnext), if_pos hnext, ← h.slice p hp]
    have hset : (s.setRt p fun e => { e with timeSlice := decTimeSlice e.timeSlice }) =
        s.setRt p fun e => { e with timeSlice := decTimeSlice (s.acct.rt p).timeSlice } := by
      simp only [Sys.setRt]
    rw [hset]
    exact h.setSlice p _
  · rw [if_neg (not_not.mpr (Nat.eq_zero_of_not_pos hnext)), if_neg hnext, expireRt]
    have hset := h.setSlice p (rrTimeslice cfg)
    rcases hset.sound with ⟨wrr, hsound⟩
    have hmoved := hset.requeueTaskRt p
    by_cases hshared : p ∈ a.order ∧ 2 ≤ a.order.length
    · rw [if_pos ((ShowsRt.shared_iff hsound p).mpr hshared), if_pos hshared]
      rcases hmoved.sound with ⟨wrr', hsound'⟩
      refine ⟨⟨wrr', hsound'.of_queues rfl rfl⟩, hmoved.range, hmoved.members, hmoved.curr,
        hmoved.slice, ?_, hmoved.throttled, hmoved.policy, hmoved.prio⟩
      exact congrArg (fun f => Function.update f p true) hmoved.resched
    · rw [if_neg fun hne => hshared ((ShowsRt.shared_iff hsound p).mp hne), if_neg hshared,
        requeued_of_not_shared hshared]
      exact hset

theorem ShowsRt.taskTickRt (hband : cfg.rtBandwidthEnabled = false) (h : ShowsRt S i s a)
    (hfilled : a.Filled (fun _ => rrTimeslice cfg) S) (hp : p ∈ S) :
    ShowsRt S i (taskTickRt cfg s p) (a.tick (fun _ => rrTimeslice cfg) p) := by
  have hupdate : Quiet id s (updateCurrRt cfg s) := quiet_updateCurrRt cfg s
  have hwatch : Quiet id (updateCurrRt cfg s) (watchdogRt cfg (updateCurrRt cfg s) p) :=
    quiet_watchdogRt cfg _ p
  exact ((h.quiet (sameSlices_updateCurrRt hband s) hupdate).quiet
    (sameSlices_watchdogRt cfg _ p) hwatch).sliceTickRt hfilled hp

/-! ## Both classes -/

/-- A call of a function of the class, or what `__schedule` and the clock do in between. -/
inductive ClassOp (T : Type) where
  | enqueue (p : T) (flags : EnqueueFlags)
  | dequeue (p : T)
  | yield
  | tick (p : T)
  | pick
  /-- `rq->curr = next` -/
  | switchTo (next : T)
  | updateRqClock

/-- The class is called on its own tasks. -/
def ClassOp.On (S : Set T) : ClassOp T → Prop
  | .enqueue p _ | .dequeue p | .tick p => p ∈ S
  | _ => True

/-- A call of `wrr_sched_class`, with what a pick returns. -/
def wrrCall (K : Kernel T E) (s : Sys T E) : ClassOp T → Except Fault (Option T × Sys T E)
  | .enqueue p flags => .ok (none, enqueueTaskWrr s p flags)
  | .dequeue p => .ok (none, dequeueTaskWrr s p)
  | .yield => .ok (none, yieldTaskWrr s)
  | .tick p => .ok (none, taskTickWrr K.toConfig s p)
  | .pick => pickNextTaskWrr s
  | .switchTo next => .ok (none, switchTo s s.core.curr next)
  | .updateRqClock => .ok (none, updateRqClock K s)

/-- A call of `rt_sched_class`. -/
def rtCall (K : Kernel T E) (s : Sys T E) : ClassOp T → Except Fault (Option T × Sys T E)
  | .enqueue p flags => .ok (none, enqueueTaskRt s p flags)
  | .dequeue p => .ok (none, dequeueTaskRt K.toConfig s p)
  | .yield => .ok (none, yieldTaskRt s)
  | .tick p => .ok (none, taskTickRt K.toConfig s p)
  | .pick => pickNextTaskRt s
  | .switchTo next => .ok (none, switchTo s s.core.curr next)
  | .updateRqClock => .ok (none, updateRqClock K s)

/-- One call after the other. -/
def callAll (call : Sys T E → ClassOp T → Except Fault (Option T × Sys T E)) (s : Sys T E) :
    List (ClassOp T) → Except Fault (List (Option T) × Sys T E)
  | [] => .ok ([], s)
  | op :: ops => do
      let (p, s) ← call s op
      let (ps, s) ← callAll call s ops
      pure (p :: ps, s)

omit [DecidableEq T] in
lemma callAll_cons {call : Sys T E → ClassOp T → Except Fault (Option T × Sys T E)} {op : ClassOp T}
    {ops : List (ClassOp T)} {q : Option T} {picks : List (Option T)} {s₁ : Sys T E}
    (hcall : call s op = .ok (q, s₁)) (hall : callAll call s₁ ops = .ok (picks, s')) :
    callAll call s (op :: ops) = .ok (q :: picks, s') := by
  rw [callAll, hcall]
  show (callAll call s₁ ops >>= fun r => pure (q :: r.1, r.2)) = _
  rw [hall]
  rfl

namespace SliceQueue

/-- What a call does to the abstract queue. -/
def call (quantum : T → ℕ) (a : SliceQueue T) : ClassOp T → Option T × SliceQueue T
  | .enqueue p flags => (none, a.enqueue p flags.head)
  | .dequeue p => (none, a.dequeue p)
  | .yield => (none, a.yield)
  | .tick p => (none, a.tick quantum p)
  | .pick => (a.order.head?, a)
  | .switchTo next => (none, a.switchTo next)
  | .updateRqClock => (none, a)

lemma Filled.call {quantum : T → ℕ} (h : a.Filled quantum S) (op : ClassOp T) :
    (a.call quantum op).2.Filled quantum S := by
  cases op with
  | tick p =>
      dsimp only [SliceQueue.call]
      exact h.tick p
  | _ => exact h

end SliceQueue

/-- **The WRR class does what the abstract queue does.** -/
theorem ShowsWrr.wrrCall {quantum : T → ℕ} (h : ShowsWrr K.toConfig S quantum s a) {op : ClassOp T}
    (hop : op.On S) : ∃ s', wrrCall K s op = .ok ((a.call quantum op).1, s') ∧
      ShowsWrr K.toConfig S quantum s' (a.call quantum op).2 := by
  cases op with
  | enqueue p flags => exact ⟨_, rfl, h.enqueueTaskWrr hop flags⟩
  | dequeue p => exact ⟨_, rfl, h.dequeueTaskWrr p⟩
  | yield => exact ⟨_, rfl, h.yieldTaskWrr⟩
  | tick p =>
      refine ⟨_, rfl, ?_⟩
      dsimp only [SliceQueue.call]
      exact h.taskTickWrr hop
  | pick =>
      rcases h.pickNextTaskWrr with ⟨s', hpick, hs', -⟩
      exact ⟨s', hpick, hs'⟩
  | switchTo next => exact ⟨_, rfl, h.switchTo next⟩
  | updateRqClock =>
      have hquiet : Quiet id s (updateRqClock K s) := quiet_updateRqClock K s
      exact ⟨_, rfl, h.quiet (sameSlices_updateRqClock s) hquiet⟩

/-- **So does the RT class**, with its own quantum. -/
theorem ShowsRt.rtCall (hband : K.rtBandwidthEnabled = false) (h : ShowsRt S i s a)
    (hfilled : a.Filled (fun _ => rrTimeslice K.toConfig) S) {op : ClassOp T} (hop : op.On S) :
    ∃ s', rtCall K s op = .ok ((a.call (fun _ => rrTimeslice K.toConfig) op).1, s') ∧
      ShowsRt S i s' (a.call (fun _ => rrTimeslice K.toConfig) op).2 := by
  cases op with
  | enqueue p flags => exact ⟨_, rfl, h.enqueueTaskRt hop flags⟩
  | dequeue p => exact ⟨_, rfl, h.dequeueTaskRt hband hop⟩
  | yield => exact ⟨_, rfl, h.yieldTaskRt⟩
  | tick p =>
      refine ⟨_, rfl, ?_⟩
      dsimp only [SliceQueue.call]
      exact h.taskTickRt hband hfilled hop
  | pick =>
      rcases h.pickNextTaskRt with ⟨s', hpick, hs'⟩
      exact ⟨s', hpick, hs'⟩
  | switchTo next => exact ⟨_, rfl, h.switchTo next⟩
  | updateRqClock =>
      have hquiet : Quiet id s (updateRqClock K s) := quiet_updateRqClock K s
      exact ⟨_, rfl, h.quiet (sameSlices_updateRqClock s) hquiet⟩

/-- `rq->rt.active.queue + i` in memory, as a list of tasks. -/
def RtQueue (i : ℤ) (s : Sys T E) (l : List T) : Prop :=
  Visits s.queues.links (.head (.queue i)) (.head (.queue i)) (l.map fun p => .node (.rt p))

lemma ShowsRt.rtQueue (h : ShowsRt S i s a) : RtQueue i s a.order := by
  rcases h.sound with ⟨wrr, hsound⟩
  have hvisits := hsound.represents.visits (.queue i)
  rwa [queueLists, Function.update_self, List.map_map] at hvisits

/-- Both classes follow the abstract queue through every sequence of calls. -/
lemma callAll_same (hband : K.rtBandwidthEnabled = false) :
    ∀ (ops : List (ClassOp T)) {sW sR : Sys T E} {a : SliceQueue T},
      ShowsWrr K.toConfig S (fun _ => rrTimeslice K.toConfig) sW a → ShowsRt S i sR a →
      a.Filled (fun _ => rrTimeslice K.toConfig) S → (∀ op ∈ ops, op.On S) →
      ∃ picks sW' sR' a', callAll (wrrCall K) sW ops = .ok (picks, sW') ∧
        callAll (rtCall K) sR ops = .ok (picks, sR') ∧
        ShowsWrr K.toConfig S (fun _ => rrTimeslice K.toConfig) sW' a' ∧ ShowsRt S i sR' a'
  | [], sW, sR, a, hW, hR, _, _ => ⟨[], sW, sR, a, rfl, rfl, hW, hR⟩
  | op :: ops, sW, sR, a, hW, hR, hfilled, hops => by
      have hop := hops op List.mem_cons_self
      rcases hW.wrrCall hop with ⟨sW₁, hcallW, hW₁⟩
      rcases hR.rtCall hband hfilled hop with ⟨sR₁, hcallR, hR₁⟩
      rcases callAll_same hband ops hW₁ hR₁ (hfilled.call op)
        fun op' hop' => hops op' (List.mem_cons_of_mem op hop') with
        ⟨picks, sW', sR', a', hallW, hallR, hW', hR'⟩
      exact ⟨(a.call (fun _ => rrTimeslice K.toConfig) op).1 :: picks, sW', sR', a',
        callAll_cons hcallW hallW, callAll_cons hcallR hallR, hW', hR'⟩

/-- **WRR with foreground tasks is `SCHED_RR` at one priority**: called in the same way from the
same queue order and the same slices, the two classes pick the same tasks, ask for the same
reschedules, and have the same queue order, slices and intervals after every call. -/
theorem wrr_is_rr (hband : K.rtBandwidthEnabled = false) {sW sR : Sys T E}
    (hW : ShowsWrr K.toConfig S (fun _ => wrrTimesliceFore K.toConfig) sW a)
    (hR : ShowsRt S i sR a) (hslice : ∀ p ∈ S, 1 ≤ a.slice p) (ops : List (ClassOp T))
    (hops : ∀ op ∈ ops, op.On S) :
    ∃ picks sW' sR', callAll (wrrCall K) sW ops = .ok (picks, sW') ∧
      callAll (rtCall K) sR ops = .ok (picks, sR') ∧
      (∃ order, WrrQueue sW' order ∧ RtQueue i sR' order) ∧
      (∀ p ∈ S, (sW'.acct.wrr p).timeSlice = (sR'.acct.rt p).timeSlice) ∧
      sW'.needResched = sR'.needResched ∧
      ∀ p ∈ S, getRrIntervalWrr K.toConfig sW' p = getRrIntervalRt K.toConfig sR' p := by
  have hfilled : a.Filled (fun _ => rrTimeslice K.toConfig) S := by
    intro p hp hzero
    have hpos := hslice p hp
    omega
  rcases callAll_same hband ops hW hR hfilled hops with
    ⟨picks, sW', sR', a', hallW, hallR, hW', hR'⟩
  refine ⟨picks, sW', sR', hallW, hallR, ⟨a'.order, hW'.wrrQueue, hR'.rtQueue⟩,
    fun p hp => (hW'.slice p hp).trans (hR'.slice p hp).symm, hW'.resched.trans hR'.resched.symm,
    fun p hp => ?_⟩
  rw [getRrIntervalWrr, getRrIntervalRt, if_pos (hW'.policy p hp), if_pos (hR'.policy p hp),
    hW'.quantum p hp]

/-- A machine on which every task is one of the root group, with the policy `policy`. -/
def startState (policy : ℤ) : Sys ℕ (SchedClass → List ℕ) :=
  let s := init (fifoKernel smallConfig) smallBoot
  { s with
    core := { s.core with
      task := fun _ => { initTask smallConfig with policy := policy, prio := 50 } }
    acct := { s.acct with
      rt := fun _ => { timeout := 0, timeSlice := 3 }
      wrr := fun _ => { timeout := 0, timeSlice := 3 } } }

/-- Two tasks are queued, the second in front; it is picked and uses up its slice. -/
theorem wrr_is_rr_two :
    ∃ picks sW' sR', callAll (wrrCall (fifoKernel smallConfig)) (startState schedWrr)
        [.enqueue 2 ⟨true, false⟩, .enqueue 3 ⟨false, true⟩, .pick, .switchTo 3, .tick 3, .tick 3,
          .tick 3, .pick, .switchTo 2, .yield] = .ok (picks, sW') ∧
      callAll (rtCall (fifoKernel smallConfig)) (startState schedRr)
        [.enqueue 2 ⟨true, false⟩, .enqueue 3 ⟨false, true⟩, .pick, .switchTo 3, .tick 3, .tick 3,
          .tick 3, .pick, .switchTo 2, .yield] = .ok (picks, sR') ∧
      (∃ order, WrrQueue sW' order ∧ RtQueue 50 sR' order) ∧
      (∀ p ∈ ({2, 3} : Set ℕ), (sW'.acct.wrr p).timeSlice = (sR'.acct.rt p).timeSlice) ∧
      sW'.needResched = sR'.needResched ∧
      ∀ p ∈ ({2, 3} : Set ℕ),
        getRrIntervalWrr smallConfig sW' p = getRrIntervalRt smallConfig sR' p := by
  have hsound : Sound (init (fifoKernel smallConfig) smallBoot) [] fun _ => [] :=
    sound_init smallBoot
  let a : SliceQueue ℕ :=
    { order := [], curr := 0, slice := fun _ => 3, resched := fun _ => false }
  have hW : ShowsWrr smallConfig {2, 3} (fun _ => wrrTimesliceFore smallConfig)
      (startState schedWrr) a :=
    ⟨⟨_, hsound.of_queues rfl rfl⟩, by simp [a], rfl, fun _ _ => rfl, rfl, rfl, fun _ _ => rfl,
      fun _ _ => rfl⟩
  have hR : ShowsRt {2, 3} 50 (startState schedRr) a := by
    refine ⟨⟨[], ?_⟩, by decide, by simp [a], rfl, fun _ _ => rfl, rfl, rfl, fun _ _ => rfl,
      fun _ _ => rfl⟩
    have hnil : (Function.update (fun _ => []) 50 [] : ℤ → List ℕ) = fun _ => [] :=
      Function.update_eq_self 50 _
    have hstart : Sound (startState schedRr) [] fun _ => [] := hsound.of_queues rfl rfl
    rwa [← hnil] at hstart
  have hslice : ∀ p ∈ ({2, 3} : Set ℕ), 1 ≤ a.slice p := by
    intro p _
    show 1 ≤ 3
    omega
  exact wrr_is_rr (K := fifoKernel smallConfig) rfl hW hR hslice _
    (by simp [ClassOp.On])

end Sched
