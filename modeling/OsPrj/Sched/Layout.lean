import OsPrj.Sched.RunQueue
import Mathlib.Data.Finset.Card

/-!
# Where the tasks are queued

`Layout queued s place wrr` is the view of a run queue that the paths of `core.c` share: every task
is at one `place`, which is off the queue, in the WRR queue, in one of the RT queues, or with one
of the other classes; `wrr` is the WRR queue in order, and `rq->nr_running` counts the tasks that
are not off.

* `Laws` — what is assumed of `stop_task.c`, `fair.c` and `idle_task.c`.
* `Layout.enqueueTask`, `Layout.dequeueTask` — **enqueue puts a task at the spot its class and
  priority name, dequeue takes it off**, whatever the class.
* `Layout.quiet`, `Layout.yieldTask`, `Layout.classTaskTick`, `Layout.classPickNextTask` — the other
  hooks leave every task at its place.
-/

namespace Sched

variable {T E : Type} [DecidableEq T]

/-! ## The classes outside the repository -/

/-- What the other classes are assumed to do: `queued` is the set of tasks a class holds.
Enqueue and dequeue count by one, no other hook moves a task, and a class picks one of its tasks
unless it has none; then it leaves everything alone. -/
structure Laws (K : Kernel T E) (queued : E → SchedClass → Finset T) : Prop
    extends QuietHooks K queued where
  init : ∀ c, queued K.otherInit c = ∅
  hNrRunning : ∀ e, K.hNrRunning e = (queued e .fair).card
  enqueue : ∀ c s p flags, c = .stop ∨ c = .fair → p ∉ queued s.other c →
    queued (K.enqueueOther c s p flags).1.other
      = Function.update (queued s.other) c (insert p (queued s.other c))
  enqueueNr : ∀ c s p flags, c = .stop ∨ c = .fair → p ∉ queued s.other c →
    (K.enqueueOther c s p flags).2 = s.queues.nrRunning + 1
  dequeue : ∀ c s p sleep, c = .stop ∨ c = .fair → p ∈ queued s.other c →
    queued (K.dequeueOther c s p sleep).1.other
      = Function.update (queued s.other) c ((queued s.other c).erase p)
  dequeueNr : ∀ c s p sleep, c = .stop ∨ c = .fair → p ∈ queued s.other c →
    (K.dequeueOther c s p sleep).2 = s.queues.nrRunning - 1
  pickMem : ∀ c s p, c = .stop ∨ c = .fair → (K.pickOther c s).1 = some p → p ∈ queued s.other c
  pickNone : ∀ c s, c = .stop ∨ c = .fair →
    ((K.pickOther c s).1 = none ↔ queued s.other c = ∅)
  pickNoneKeeps : ∀ c s, c = .stop ∨ c = .fair → (K.pickOther c s).1 = none →
    (K.pickOther c s).2 = { other := s.other, acct := s.acct, resched := false }
  pickIdle : ∀ s, (K.pickOther .idle s).1 = some s.core.idle

/-- Other classes that are plain queues, with the `switched_to` of `fair.c`. -/
def fifoKernel (cfg : Config) : Kernel T (SchedClass → List T) where
  toConfig := cfg
  otherInit := fun _ => []
  hNrRunning := fun e => (e .fair).toFinset.card
  enqueueOther := fun c s p _ =>
    ({ other := Function.update s.other c (s.other c ++ [p]), acct := s.acct, resched := false },
      s.queues.nrRunning + 1)
  dequeueOther := fun c s p _ =>
    ({ other := Function.update s.other c ((s.other c).filter (· ≠ p)), acct := s.acct
       resched := false }, s.queues.nrRunning - 1)
  yieldOther := fun _ s => { other := s.other, acct := s.acct, resched := false }
  checkPreemptOther := fun _ s _ => { other := s.other, acct := s.acct, resched := false }
  pickOther := fun c s =>
    (if c = .idle then some s.core.idle else (s.other c).head?,
      { other := s.other, acct := s.acct, resched := false })
  putPrevOther := fun _ s _ => { other := s.other, acct := s.acct, resched := false }
  setCurrOther := fun _ s => { other := s.other, acct := s.acct, resched := false }
  taskTickOther := fun _ s _ => { other := s.other, acct := s.acct, resched := false }
  taskForkOther := fun _ s _ => { other := s.other, acct := s.acct, resched := false }
  switchedFromOther := fun _ s _ => { other := s.other, acct := s.acct, resched := false }
  switchedToOther := fun _ s p =>
    { other := s.other, acct := s.acct
      resched := (s.task p).onRq && (decide (s.core.curr = p) || classPreempts
        (s.task p).schedClass (s.task s.core.curr).schedClass forEachClass) }
  prioChangedOther := fun _ s _ _ => { other := s.other, acct := s.acct, resched := false }
  taskMoveGroupOther := fun _ s _ _ => { other := s.other, acct := s.acct, resched := false }

/-- A small machine: 100 ticks a second, RT bandwidth control off. -/
def smallConfig : Config where
  hz := 100
  hz_pos := by decide
  hz_fits := by decide
  wordSize := 64
  schedClock := fun n => BitVec.ofNat 64 n
  rtBandwidthEnabled := false
  rtPeriod := 1000000
  rtRuntime := 950000

/-- Task `0` is the idle task and task `1` the stop task. -/
def smallBoot : Boot ℕ where
  idle := 0
  stop := some 1
  stop_ne := by decide

/-- The tasks that are in such a queue. -/
def fifoQueued (e : SchedClass → List T) (c : SchedClass) : Finset T := (e c).toFinset

lemma fifoQueued_update (e : SchedClass → List T) (c : SchedClass) (l : List T) :
    fifoQueued (Function.update e c l) = Function.update (fifoQueued e) c l.toFinset := by
  funext d
  rcases eq_or_ne d c with rfl | hd
  · simp [fifoQueued]
  · simp [fifoQueued, Function.update_of_ne hd]

/-- **Plain queues keep the laws.** -/
theorem fifoKernel_laws (cfg : Config) :
    Laws (fifoKernel cfg : Kernel T (SchedClass → List T)) fifoQueued where
  yield := fun _ _ => rfl
  checkPreempt := fun _ _ _ => rfl
  pick := fun _ _ => rfl
  putPrev := fun _ _ _ => rfl
  setCurr := fun _ _ => rfl
  taskTick := fun _ _ _ => rfl
  taskFork := fun _ _ _ => rfl
  switchedFrom := fun _ _ _ => rfl
  switchedTo := fun _ _ _ => rfl
  prioChanged := fun _ _ _ _ => rfl
  taskMoveGroup := fun _ _ _ _ => rfl
  init := fun _ => rfl
  hNrRunning := fun _ => rfl
  enqueue := by
    intro c s p _ _ _
    have hlist : (s.other c ++ [p]).toFinset = insert p (fifoQueued s.other c) := by
      ext q
      simp [fifoQueued]
    rw [← hlist, ← fifoQueued_update]
    rfl
  enqueueNr := fun _ _ _ _ _ _ => rfl
  dequeue := by
    intro c s p _ _ _
    have hlist : ((s.other c).filter (· ≠ p)).toFinset = (fifoQueued s.other c).erase p := by
      ext q
      simp [fifoQueued, and_comm]
    rw [← hlist, ← fifoQueued_update]
    rfl
  dequeueNr := fun _ _ _ _ _ _ => rfl
  pickMem := by
    intro c s p hc hpick
    have hhead : (s.other c).head? = some p := by
      rcases hc with rfl | rfl <;> exact hpick
    exact List.mem_toFinset.mpr (List.mem_of_head? hhead)
  pickNone := by
    intro c s hc
    have hhead : ((fifoKernel cfg : Kernel T _).pickOther c s).1 = (s.other c).head? := by
      rcases hc with rfl | rfl <;> rfl
    rw [hhead, List.head?_eq_none_iff, fifoQueued, List.toFinset_eq_empty_iff]
  pickNoneKeeps := fun _ _ _ _ => rfl
  pickIdle := fun _ => rfl

/-! ## Places -/

/-- Where a task can be queued. -/
inductive Place where
  | off
  | wrr
  | rt (i : ℤ)
  | other (c : SchedClass)
  deriving DecidableEq

/-- Where the class and the priority say that a task is queued. -/
def TaskStruct.spot (t : TaskStruct) : Place :=
  match t.schedClass with
  | .wrr => .wrr
  | .rt => .rt t.prio
  | c => .other c

lemma TaskStruct.spot_ne_off (t : TaskStruct) : t.spot ≠ .off := by
  rw [spot]
  split <;> simp

lemma TaskStruct.spot_eq_wrr_iff (t : TaskStruct) : t.spot = .wrr ↔ t.schedClass = .wrr := by
  rw [spot]
  split <;> simp_all

lemma TaskStruct.spot_eq_rt_iff (t : TaskStruct) (i : ℤ) :
    t.spot = .rt i ↔ t.schedClass = .rt ∧ t.prio = i := by
  rw [spot]
  split <;> simp_all

/-- The run queue, by places. -/
structure Layout (queued : E → SchedClass → Finset T) (s : Sys T E) (place : T → Place)
    (wrr : List T) : Prop where
  sound : ∃ rt, Sound s wrr rt ∧ ∀ p i, p ∈ rt i ↔ place p = .rt i
  mem_wrr : ∀ p, p ∈ wrr ↔ place p = .wrr
  mem_other : ∀ p c, p ∈ queued s.other c ↔ place p = .other c
  nr : ∃ P : Finset T, (∀ p, p ∈ P ↔ place p ≠ .off) ∧ s.queues.nrRunning = P.card

section

variable {queued : E → SchedClass → Finset T} {s s' : Sys T E} {place : T → Place} {wrr : List T}
  {p : T}

lemma Layout.wrr_nodup (h : Layout queued s place wrr) : wrr.Nodup := by
  rcases h.sound with ⟨rt, hs, -⟩
  exact hs.wrr_nodup

/-- Only the queues and the other classes count, not the tasks. -/
lemma Layout.congr (h : Layout queued s place wrr) (hqueues : s'.queues = s.queues)
    (hview : queued s'.other = queued s.other)
    (hwarn : Warning.decWrrTasks ∈ s'.warnings → Warning.decWrrTasks ∈ s.warnings) :
    Layout queued s' place wrr where
  sound := by
    rcases h.sound with ⟨rt, hs, hmem⟩
    exact ⟨rt, ⟨hqueues ▸ hs.represents, hqueues ▸ hs.wrrNr, hqueues ▸ hs.rtNr,
      hqueues ▸ hs.bitmap, hs.range, fun hw => hs.noWarning (hwarn hw)⟩, hmem⟩
  mem_wrr := h.mem_wrr
  mem_other := hview ▸ h.mem_other
  nr := hqueues ▸ h.nr

lemma Layout.quiet (h : Layout queued s place wrr) (hq : Quiet queued s s') :
    Layout queued s' place wrr :=
  h.congr hq.queues hq.view hq.warnings

lemma Layout.setTask (h : Layout queued s place wrr) (p : T) (f : TaskStruct → TaskStruct) :
    Layout queued (s.setTask p f) place wrr :=
  h.congr rfl rfl id

/-! ## Enqueue and dequeue -/

/-- The WRR queue after `enqueue_task`. -/
def wrrAfterEnqueue (wrr : List T) (t : TaskStruct) (p : T) (head : Bool) : List T :=
  if t.schedClass = .wrr then addTo wrr p head else wrr

/-- Who is at a place, when somebody else moves between two other places. -/
lemma update_place_iff {x k : Place} (hold : place p ≠ k) (hnew : x ≠ k) (q : T) :
    Function.update place p x q = k ↔ place q = k := by
  rcases eq_or_ne q p with rfl | hq
  · rw [Function.update_self]
    exact iff_of_false hnew hold
  · rw [Function.update_of_ne hq]

/-- The set of queued tasks after one more is queued. -/
lemma exists_insert_place {n : ℤ} {spot : Place} (hoff : place p = .off) (hspot : spot ≠ .off)
    (h : ∃ P : Finset T, (∀ q, q ∈ P ↔ place q ≠ .off) ∧ n = P.card) :
    ∃ P : Finset T, (∀ q, q ∈ P ↔ Function.update place p spot q ≠ .off) ∧ n + 1 = P.card := by
  rcases h with ⟨P, hP, hcard⟩
  have hp : p ∉ P := fun hp => (hP p).mp hp hoff
  refine ⟨insert p P, fun q => ?_, ?_⟩
  · rcases eq_or_ne q p with rfl | hq
    · simp [hspot]
    · simp [hq, hP]
  · rw [Finset.card_insert_of_notMem hp, hcard]
    push_cast
    rfl

/-- The set of queued tasks after one is taken off. -/
lemma exists_erase_place {n : ℤ} (hon : place p ≠ .off)
    (h : ∃ P : Finset T, (∀ q, q ∈ P ↔ place q ≠ .off) ∧ n = P.card) :
    ∃ P : Finset T, (∀ q, q ∈ P ↔ Function.update place p .off q ≠ .off) ∧ n - 1 = P.card := by
  rcases h with ⟨P, hP, hcard⟩
  have hp : p ∈ P := (hP p).mpr hon
  refine ⟨P.erase p, fun q => ?_, ?_⟩
  · rcases eq_or_ne q p with rfl | hq
    · simp
    · simp [hq, hP]
  · have hsucc := Finset.card_erase_add_one hp
    omega

lemma Layout.enqueueTaskWrr (h : Layout queued s place wrr) (hoff : place p = .off)
    (flags : EnqueueFlags) :
    Layout queued (enqueueTaskWrr s p flags) (Function.update place p .wrr)
      (addTo wrr p flags.head) where
  sound := by
    rcases h.sound with ⟨rt, hs, hmem⟩
    have hp : p ∉ wrr := by simp [h.mem_wrr, hoff]
    have hsound := hs.enqueueTaskWrr p flags
    rw [List.erase_of_not_mem hp] at hsound
    refine ⟨rt, hsound, fun q i => ?_⟩
    rw [hmem, update_place_iff (by simp [hoff]) (by simp)]
  mem_wrr := by
    intro q
    rcases eq_or_ne q p with rfl | hq
    · simp
    · simp [h.mem_wrr, hq]
  mem_other := by
    intro q c
    rw [(counts_enqueueTaskWrr s p flags).other, h.mem_other,
      update_place_iff (by simp [hoff]) (by simp)]
  nr := by
    rw [(counts_enqueueTaskWrr s p flags).nr]
    exact exists_insert_place hoff (by simp) h.nr

lemma Layout.dequeueTaskWrr (h : Layout queued s place wrr) (hon : place p = .wrr) :
    Layout queued (dequeueTaskWrr s p) (Function.update place p .off) (wrr.erase p) where
  sound := by
    rcases h.sound with ⟨rt, hs, hmem⟩
    refine ⟨rt, hs.dequeueTaskWrr p, fun q i => ?_⟩
    rw [hmem, update_place_iff (by simp [hon]) (by simp)]
  mem_wrr := by
    intro q
    rw [h.wrr_nodup.mem_erase_iff, h.mem_wrr]
    rcases eq_or_ne q p with rfl | hq
    · simp
    · simp [hq]
  mem_other := by
    intro q c
    rw [(counts_dequeueTaskWrr s p).other, h.mem_other,
      update_place_iff (by simp [hon]) (by simp)]
  nr := by
    rw [(counts_dequeueTaskWrr s p).nr]
    exact exists_erase_place (by simp [hon]) h.nr

lemma Layout.enqueueTaskRt (h : Layout queued s place wrr) (hoff : place p = .off)
    (hprio : 0 ≤ (s.task p).prio ∧ (s.task p).prio < maxRtPrio) (flags : EnqueueFlags) :
    Layout queued (enqueueTaskRt s p flags) (Function.update place p (.rt (s.task p).prio))
      wrr where
  sound := by
    rcases h.sound with ⟨rt, hs, hmem⟩
    have hnot : ∀ i, p ∉ rt i := fun i => by simp [hmem, hoff]
    have hsound := hs.enqueueTaskRt p flags (fun i hi => absurd hi (hnot i)) hprio
    rw [List.erase_of_not_mem (hnot _)] at hsound
    refine ⟨_, hsound, fun q i => ?_⟩
    rcases eq_or_ne q p with rfl | hq
    · rcases eq_or_ne i (s.task q).prio with rfl | hi
      · simp
      · simp [hi, hi.symm, hnot]
    · rcases eq_or_ne i (s.task p).prio with rfl | hi
      · simp [hmem, hq]
      · simp [hmem, hq, hi]
  mem_wrr := by
    intro q
    rw [h.mem_wrr, update_place_iff (by simp [hoff]) (by simp)]
  mem_other := by
    intro q c
    rw [(counts_enqueueTaskRt s p flags).other, h.mem_other,
      update_place_iff (by simp [hoff]) (by simp)]
  nr := by
    rw [(counts_enqueueTaskRt s p flags).nr]
    exact exists_insert_place hoff (by simp) h.nr

lemma Layout.dequeueTaskRt (h : Layout queued s place wrr) (cfg : Config)
    (hon : place p = .rt (s.task p).prio) :
    Layout queued (dequeueTaskRt cfg s p) (Function.update place p .off) wrr where
  sound := by
    rcases h.sound with ⟨rt, hs, hmem⟩
    have hp : ∀ i, p ∈ rt i → i = (s.task p).prio := fun i hi => by
      rw [hmem, hon] at hi
      exact (Place.rt.inj hi).symm
    refine ⟨_, hs.dequeueTaskRt cfg p hp, fun q i => ?_⟩
    rcases eq_or_ne q p with rfl | hq
    · simp [hs.notMem_erase_rt hp i]
    · rcases eq_or_ne i (s.task p).prio with rfl | hi
      · simp [List.mem_erase_of_ne hq, hmem, hq]
      · simp [hmem, hq, hi]
  mem_wrr := by
    intro q
    rw [h.mem_wrr, update_place_iff (by simp [hon]) (by simp)]
  mem_other := by
    intro q c
    rw [(counts_dequeueTaskRt cfg s p).other, h.mem_other,
      update_place_iff (by simp [hon]) (by simp)]
  nr := by
    rw [(counts_dequeueTaskRt cfg s p).nr]
    exact exists_erase_place (by simp [hon]) h.nr

/-- The queues of the RT and the WRR class do not see what another class does. -/
lemma Sound.applyOther {rt : ℤ → List T} (h : Sound s wrr rt) (n : ℤ) (r : HookResult T E) :
    Sound ((s.setQueues { s.queues with nrRunning := n }).applyHook r) wrr rt := by
  have hquiet : Quiet (fun _ : E => ()) (s.setQueues { s.queues with nrRunning := n })
      ((s.setQueues { s.queues with nrRunning := n }).applyHook r) := quiet_applyHook _ rfl
  exact (h.setNrRunning n).quiet hquiet

@[simp] lemma applyHook_other (s : Sys T E) (r : HookResult T E) :
    (s.applyHook r).other = r.other := by
  rw [Sys.applyHook]
  split_ifs <;> rfl

@[simp] lemma applyHook_queues (s : Sys T E) (r : HookResult T E) :
    (s.applyHook r).queues = s.queues := by
  rw [Sys.applyHook]
  split_ifs <;> rfl

lemma Layout.enqueueOther {K : Kernel T E} (hK : Laws K queued) (h : Layout queued s place wrr)
    {c : SchedClass} (hc : c = .stop ∨ c = .fair) (hoff : place p = .off) (flags : EnqueueFlags) :
    Layout queued ((s.setQueues { s.queues with
        nrRunning := (K.enqueueOther c s p flags).2 }).applyHook (K.enqueueOther c s p flags).1)
      (Function.update place p (.other c)) wrr where
  sound := by
    rcases h.sound with ⟨rt, hs, hmem⟩
    refine ⟨rt, hs.applyOther _ _, fun q i => ?_⟩
    rw [hmem, update_place_iff (by simp [hoff]) (by simp)]
  mem_wrr := by
    intro q
    rw [h.mem_wrr, update_place_iff (by simp [hoff]) (by simp)]
  mem_other := by
    have hnot : p ∉ queued s.other c := by simp [h.mem_other, hoff]
    intro q d
    rw [applyHook_other, hK.enqueue c s p flags hc hnot]
    rcases eq_or_ne d c with rfl | hd
    · rcases eq_or_ne q p with rfl | hq
      · simp
      · simp [h.mem_other, hq]
    · rcases eq_or_ne q p with rfl | hq
      · simp [hd, hd.symm, h.mem_other, hoff]
      · simp [hd, h.mem_other, hq]
  nr := by
    have hnot : p ∉ queued s.other c := by simp [h.mem_other, hoff]
    rw [applyHook_queues]
    show ∃ P : Finset T, _ ∧ (K.enqueueOther c s p flags).2 = _
    rw [hK.enqueueNr c s p flags hc hnot]
    exact exists_insert_place hoff (by simp) h.nr

lemma Layout.dequeueOther {K : Kernel T E} (hK : Laws K queued) (h : Layout queued s place wrr)
    {c : SchedClass} (hc : c = .stop ∨ c = .fair) (hon : place p = .other c) (sleep : Bool) :
    Layout queued ((s.setQueues { s.queues with
        nrRunning := (K.dequeueOther c s p sleep).2 }).applyHook (K.dequeueOther c s p sleep).1)
      (Function.update place p .off) wrr where
  sound := by
    rcases h.sound with ⟨rt, hs, hmem⟩
    refine ⟨rt, hs.applyOther _ _, fun q i => ?_⟩
    rw [hmem, update_place_iff (by simp [hon]) (by simp)]
  mem_wrr := by
    intro q
    rw [h.mem_wrr, update_place_iff (by simp [hon]) (by simp)]
  mem_other := by
    have hmem : p ∈ queued s.other c := by rw [h.mem_other, hon]
    intro q d
    rw [applyHook_other, hK.dequeue c s p sleep hc hmem]
    rcases eq_or_ne d c with rfl | hd
    · rcases eq_or_ne q p with rfl | hq
      · simp
      · simp [h.mem_other, hq]
    · rcases eq_or_ne q p with rfl | hq
      · simp [hd, hd.symm, h.mem_other, hon]
      · simp [hd, h.mem_other, hq]
  nr := by
    have hmem : p ∈ queued s.other c := by rw [h.mem_other, hon]
    rw [applyHook_queues]
    show ∃ P : Finset T, _ ∧ (K.dequeueOther c s p sleep).2 = _
    rw [hK.dequeueNr c s p sleep hc hmem]
    exact exists_erase_place (by simp [hon]) h.nr

/-- **Enqueue puts a task at its spot.** -/
theorem Layout.enqueueTask {K : Kernel T E} (hK : Laws K queued) (h : Layout queued s place wrr)
    (hoff : place p = .off) (hidle : (s.task p).schedClass ≠ .idle)
    (hprio : (s.task p).schedClass = .rt → 0 ≤ (s.task p).prio ∧ (s.task p).prio < maxRtPrio)
    (flags : EnqueueFlags) :
    Layout queued (enqueueTask K s p flags) (Function.update place p (s.task p).spot)
      (wrrAfterEnqueue wrr (s.task p) p flags.head) := by
  have hclock : Quiet queued s (updateRqClock K s) := quiet_updateRqClock K s
  have htask := hclock.task p
  have hlayout := h.quiet hclock
  rw [Sched.enqueueTask, TaskStruct.spot, wrrAfterEnqueue, htask]
  cases hc : (s.task p).schedClass with
  | rt =>
      rw [← htask] at hc hprio ⊢
      exact hlayout.enqueueTaskRt hoff (hprio hc) flags
  | wrr => exact hlayout.enqueueTaskWrr hoff flags
  | stop => exact hlayout.enqueueOther hK (.inl rfl) hoff flags
  | fair => exact hlayout.enqueueOther hK (.inr rfl) hoff flags
  | idle => exact absurd hc hidle

/-- **Dequeue takes a task from its spot.** -/
theorem Layout.dequeueTask {K : Kernel T E} (hK : Laws K queued) (h : Layout queued s place wrr)
    (hon : place p = (s.task p).spot) (hidle : (s.task p).schedClass ≠ .idle) (sleep : Bool) :
    Layout queued (dequeueTask K s p sleep) (Function.update place p .off) (wrr.erase p) := by
  have hclock : Quiet queued s (updateRqClock K s) := quiet_updateRqClock K s
  have htask := hclock.task p
  have hlayout := h.quiet hclock
  have hkeep : (s.task p).schedClass ≠ .wrr → wrr.erase p = wrr := fun hc => by
    refine List.erase_of_not_mem fun hp => hc ?_
    rw [← TaskStruct.spot_eq_wrr_iff, ← hon]
    exact (h.mem_wrr p).mp hp
  rw [Sched.dequeueTask, htask]
  rw [TaskStruct.spot] at hon
  cases hc : (s.task p).schedClass with
  | rt =>
      rw [hkeep (by simp [hc])]
      rw [hc, ← htask] at hon
      exact hlayout.dequeueTaskRt _ hon
  | wrr =>
      rw [hc] at hon
      exact hlayout.dequeueTaskWrr hon
  | stop =>
      rw [hkeep (by simp [hc])]
      rw [hc] at hon
      exact hlayout.dequeueOther hK (.inl rfl) hon sleep
  | fair =>
      rw [hkeep (by simp [hc])]
      rw [hc] at hon
      exact hlayout.dequeueOther hK (.inr rfl) hon sleep
  | idle => exact absurd hc hidle

/-! ## Yield and tick -/

lemma mem_requeued {l : List T} {q : T} {head : Bool} : q ∈ requeued l p head ↔ q ∈ l := by
  rw [requeued]
  split_ifs with hp
  · rw [mem_addTo]
    rcases eq_or_ne q p with rfl | hq
    · simp [hp]
    · simp [hq]
  · rfl

lemma Layout.requeueTaskWrr (h : Layout queued s place wrr) (p : T) (head : Bool) :
    Layout queued (requeueTaskWrr s p head) place (requeued wrr p head) where
  sound := by
    rcases h.sound with ⟨rt, hs, hmem⟩
    exact ⟨rt, hs.requeueTaskWrr p head, hmem⟩
  mem_wrr := by
    intro q
    rw [mem_requeued, h.mem_wrr]
  mem_other := by
    rw [(counts_requeueTaskWrr s p head).other]
    exact h.mem_other
  nr := by
    rw [(counts_requeueTaskWrr s p head).nr, add_zero]
    exact h.nr

lemma Layout.requeueTaskRt (h : Layout queued s place wrr)
    (hp : ∀ i, place p = .rt i → i = (s.task p).prio) (head : Bool) :
    Layout queued (requeueTaskRt s p head) place wrr where
  sound := by
    rcases h.sound with ⟨rt, hs, hmem⟩
    refine ⟨_, hs.requeueTaskRt p head fun i hi => hp i ((hmem p i).mp hi), fun q i => ?_⟩
    rcases eq_or_ne i (s.task p).prio with rfl | hi
    · rw [Function.update_self, mem_requeued, hmem]
    · rw [Function.update_of_ne hi, hmem]
  mem_wrr := h.mem_wrr
  mem_other := by
    rw [(counts_requeueTaskRt s p head).other]
    exact h.mem_other
  nr := by
    rw [(counts_requeueTaskRt s p head).nr, add_zero]
    exact h.nr

/-- The WRR queue after a hook that may send the current task to its end. -/
def MaybeRequeued (s : Sys T E) (wrr wrr' : List T) : Prop :=
  wrr' = wrr ∨ (s.task s.core.curr).schedClass = .wrr ∧ wrr' = requeued wrr s.core.curr false

lemma Layout.yieldTask {K : Kernel T E} (hK : Laws K queued) (h : Layout queued s place wrr)
    (hcurr : ∀ i, place s.core.curr = .rt i → i = (s.task s.core.curr).prio) :
    ∃ wrr', MaybeRequeued s wrr wrr' ∧ Layout queued (yieldTask K s) place wrr' := by
  rw [Sched.yieldTask]
  split
  · exact ⟨wrr, .inl rfl, h.requeueTaskRt hcurr false⟩
  · exact ⟨_, .inr ⟨‹_›, rfl⟩, h.requeueTaskWrr s.core.curr false⟩
  · exact ⟨wrr, .inl rfl, h.quiet (quiet_applyHook s (hK.yield _ _))⟩

lemma Layout.sliceTickWrr (h : Layout queued s place wrr) (cfg : Config) (p : T) :
    Layout queued (sliceTickWrr cfg s p) place wrr ∨
      Layout queued (sliceTickWrr cfg s p) place (requeued wrr p false) := by
  have hset : ∀ f, Layout queued (s.setWrr p f) place wrr := fun f => h.quiet (quiet_setWrr s p f)
  rw [Sched.sliceTickWrr]
  split_ifs
  · exact .inl h
  · exact .inl ((hset _).setTask p incPrioWrr)
  · rw [expireWrr]
    split
    · exact .inr (((hset _).requeueTaskWrr p false).quiet (quiet_reschedTask _ p))
    · exact .inl (hset _)

lemma Layout.sliceTickRt (h : Layout queued s place wrr) (cfg : Config)
    (hp : ∀ i, place p = .rt i → i = (s.task p).prio) :
    Layout queued (sliceTickRt cfg s p) place wrr := by
  have hset : ∀ f, Layout queued (s.setRt p f) place wrr := fun f => h.quiet (quiet_setRt s p f)
  rw [Sched.sliceTickRt]
  split_ifs
  · exact h
  · exact hset _
  · rw [expireRt]
    split
    · exact ((hset _).requeueTaskRt hp false).quiet (quiet_reschedTask _ p)
    · exact hset _

lemma Layout.classTaskTick {K : Kernel T E} (hK : Laws K queued) (h : Layout queued s place wrr)
    (hcurr : ∀ i, place s.core.curr = .rt i → i = (s.task s.core.curr).prio) :
    ∃ wrr', MaybeRequeued s wrr wrr' ∧ Layout queued (classTaskTick K s) place wrr' := by
  rw [Sched.classTaskTick]
  split
  · have hquiet : Quiet queued s (watchdogRt K.toConfig (updateCurrRt K.toConfig s) s.core.curr) :=
      (quiet_updateCurrRt _ s).trans (quiet_watchdogRt _ _ _)
    refine ⟨wrr, .inl rfl, (h.quiet hquiet).sliceTickRt _ ?_⟩
    rwa [hquiet.task]
  · have hquiet : Quiet queued s (watchdogWrr K.toConfig (updateCurrWrr s) s.core.curr) :=
      (quiet_updateCurrWrr s).trans (quiet_watchdogWrr _ _ _)
    rcases (h.quiet hquiet).sliceTickWrr K.toConfig s.core.curr with hsame | hmoved
    · exact ⟨wrr, .inl rfl, hsame⟩
    · exact ⟨_, .inr ⟨‹_›, rfl⟩, hmoved⟩
  · exact ⟨wrr, .inl rfl, h.quiet (quiet_applyHook s (hK.taskTick _ _ _))⟩

end

end Sched
