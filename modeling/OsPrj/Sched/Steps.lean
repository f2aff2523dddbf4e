import OsPrj.Lib.Fifo
import OsPrj.Sched.Tasks

/-!
# The parts of the operations

Between two operations a task is queued exactly when `on_rq` says so, with the class and at the
priority that its task structure names.

* `Consistent` — the tasks, the queues and the counters agree.
* `Moves q`, `Stays q` — what a part of an operation does, when at most the task `q` loses its
  position in the WRR queue; `Stays` if moreover no task leaves the run queue.
* `Consistent.activate`, `Consistent.deactivate`, `Consistent.change` — **the three ways on and off
  the run queue**, of which the functions of `core.c` are made.
-/

namespace Sched

open Fifo

variable {T E : Type} [DecidableEq T]

/-! ## Places of tasks -/

/-- Where a task is, by its own fields. -/
def TaskStruct.place (t : TaskStruct) : Place := if t.onRq then t.spot else .off

def Core.place (c : Core T) (p : T) : Place := (c.task p).place

omit [DecidableEq T] in
lemma Core.place_of_off {c : Core T} {p : T} (h : (c.task p).onRq = false) : c.place p = .off := by
  rw [Core.place, TaskStruct.place, h]
  rfl

omit [DecidableEq T] in
lemma Core.place_of_on {c : Core T} {p : T} (h : (c.task p).onRq = true) :
    c.place p = (c.task p).spot := by
  rw [Core.place, TaskStruct.place, h]
  rfl

lemma Core.place_setTask (c : Core T) (p : T) (f : TaskStruct → TaskStruct) :
    (c.setTask p f).place = Function.update c.place p (f (c.task p)).place := by
  funext q
  rcases eq_or_ne q p with rfl | hq
  · rw [Core.place, c.setTask_self, Function.update_self]
  · rw [Core.place, c.setTask_of_ne hq, Function.update_of_ne hq, Core.place]

/-! ## Consistency, and steps that keep it -/

/-- The tasks, the queues and the counters agree. -/
structure Consistent (K : Kernel T E) (queued : E → SchedClass → Finset T) (s : Sys T E)
    (wrr : List T) : Prop where
  core : CoreInv K.toConfig s.core
  layout : Layout queued s s.core.place wrr
  wrrThrottled : s.acct.wrrThrottled = false

/-- A part of an operation, in which at most `q` loses its position in the WRR queue. -/
structure Moves (K : Kernel T E) (queued : E → SchedClass → Finset T) (q : T) (s s' : Sys T E)
    (wrr wrr' : List T) : Prop where
  consistent : Consistent K queued s' wrr'
  curr : s'.core.curr = s.core.curr
  idle : s'.core.idle = s.core.idle
  tasklist : ∀ p ∈ s.core.tasklist, p ∈ s'.core.tasklist
  order : ∀ b, b ≠ q → NotOvertaken b wrr wrr'
  picks : s'.wrrPicks = s.wrrPicks
  resched : s.needResched s.core.curr = true → s'.needResched s.core.curr = true

/-- Moreover no task leaves the run queue. -/
structure Stays (K : Kernel T E) (queued : E → SchedClass → Finset T) (q : T) (s s' : Sys T E)
    (wrr wrr' : List T) : Prop extends Moves K queued q s s' wrr wrr' where
  onRq : ∀ p, (s.task p).onRq = true → (s'.task p).onRq = true

section

variable {K : Kernel T E} {queued : E → SchedClass → Finset T} {s s' s'' : Sys T E}
  {wrr wrr' wrr'' : List T} {p q : T}

lemma Stays.refl (h : Consistent K queued s wrr) (q : T) : Stays K queued q s s wrr wrr where
  consistent := h
  curr := rfl
  idle := rfl
  tasklist := fun _ hp => hp
  order := fun b _ => .refl b wrr
  picks := rfl
  resched := fun hflag => hflag
  onRq := fun _ hp => hp

lemma Moves.trans (h : Moves K queued q s s' wrr wrr') (h' : Moves K queued q s' s'' wrr' wrr'') :
    Moves K queued q s s'' wrr wrr'' where
  consistent := h'.consistent
  curr := h'.curr.trans h.curr
  idle := h'.idle.trans h.idle
  tasklist := fun p hp => h'.tasklist p (h.tasklist p hp)
  order := fun b hb => (h.order b hb).trans (h'.order b hb)
  picks := h'.picks.trans h.picks
  resched := fun hflag => by
    have hflag' := h.resched hflag
    rw [← h.curr] at hflag' ⊢
    exact h'.resched hflag'

lemma Stays.trans (h : Stays K queued q s s' wrr wrr') (h' : Stays K queued q s' s'' wrr' wrr'') :
    Stays K queued q s s'' wrr wrr'' :=
  ⟨h.toMoves.trans h'.toMoves, fun p hp => h'.onRq p (h.onRq p hp)⟩

/-- Quiet steps. -/
lemma Consistent.quiet (h : Consistent K queued s wrr) (hq : Quiet queued s s') (q : T) :
    Stays K queued q s s' wrr wrr where
  consistent :=
    ⟨hq.core ▸ h.core, hq.core ▸ h.layout.quiet hq, hq.wrrThrottled.trans h.wrrThrottled⟩
  curr := by rw [hq.core]
  idle := by rw [hq.core]
  tasklist := fun p hp => by rwa [hq.core]
  order := fun b _ => .refl b wrr
  picks := hq.picks
  resched := hq.resched _
  onRq := fun p hp => by rwa [hq.task]

/-- Parts of an operation that write the task `p` and no other. -/
lemma Moves.of_setTask (h : Consistent K queued s wrr) (hp : p ∈ s.core.tasklist)
    {f : TaskStruct → TaskStruct} (hvalid : (f (s.task p)).Valid)
    (hclass : (f (s.task p)).schedClass ≠ .idle) (hcore : s'.core = s.core.setTask p f)
    (hlayout : Layout queued s' (Function.update s.core.place p (f (s.task p)).place) wrr')
    (hthrottled : s'.acct.wrrThrottled = s.acct.wrrThrottled)
    (horder : ∀ b, b ≠ q → NotOvertaken b wrr wrr') (hpicks : s'.wrrPicks = s.wrrPicks)
    (hresched : s.needResched s.core.curr = true → s'.needResched s.core.curr = true) :
    Moves K queued q s s' wrr wrr' where
  consistent := by
    refine ⟨hcore ▸ h.core.setTask hp hvalid hclass, ?_, hthrottled.trans h.wrrThrottled⟩
    rw [hcore, Core.place_setTask]
    exact hlayout
  curr := by
    rw [hcore]
    rfl
  idle := by
    rw [hcore]
    rfl
  tasklist := by
    intro r hr
    rwa [hcore]
  order := horder
  picks := hpicks
  resched := hresched

lemma Moves.stays_of_setTask (h : Moves K queued q s s' wrr wrr') {f : TaskStruct → TaskStruct}
    (hcore : s'.core = s.core.setTask p f)
    (hon : (s.task p).onRq = true → (f (s.task p)).onRq = true) :
    Stays K queued q s s' wrr wrr' where
  toMoves := h
  onRq := by
    intro r hr
    rw [Sys.task, hcore]
    rcases eq_or_ne r p with rfl | hne
    · rw [Core.setTask_self]
      exact hon hr
    · rwa [Core.setTask_of_ne _ hne]

/-- Writing fields that do not say where the task is. -/
lemma Consistent.setTask (h : Consistent K queued s wrr) (hp : p ∈ s.core.tasklist)
    {f : TaskStruct → TaskStruct} (hvalid : (f (s.task p)).Valid)
    (hclass : (f (s.task p)).schedClass ≠ .idle) (hon : (f (s.task p)).onRq = (s.task p).onRq)
    (hspot : (f (s.task p)).place = (s.task p).place) (q : T) :
    Stays K queued q s (s.setTask p f) wrr wrr := by
  have hplace : Function.update s.core.place p (f (s.task p)).place = s.core.place := by
    rw [hspot]
    exact Function.update_eq_self p _
  have hmoves : Moves K queued q s (s.setTask p f) wrr wrr :=
    .of_setTask h hp hvalid hclass rfl (by rw [hplace]; exact h.layout.setTask p f) rfl
      (fun b _ => .refl b wrr) rfl fun hflag => hflag
  exact hmoves.stays_of_setTask rfl fun hr => hon.trans hr

/-! ### Going on and off the run queue -/

lemma notOvertaken_enqueue (b : T) (wrr : List T) (t : TaskStruct) (p : T) {head : Bool}
    (hhead : t.schedClass = .wrr → head = false) :
    NotOvertaken b wrr (wrrAfterEnqueue wrr t p head) := by
  rw [wrrAfterEnqueue]
  split_ifs with hclass
  · rw [hhead hclass]
    exact notOvertaken_append b wrr [p]
  · exact .refl b wrr

/-- `activate_task`, with the `on_rq` that its caller sets. -/
theorem Consistent.activate (hK : Laws K queued) (h : Consistent K queued s wrr)
    (hp : p ∈ s.core.tasklist) (hoff : (s.task p).onRq = false) (wakeup : Bool) (q : T) :
    Stays K queued q s
      ((activateTask K s p { wakeup := wakeup, head := false }).setTask p fun t =>
        { t with onRq := true }) wrr (wrrAfterEnqueue wrr (s.task p) p false) := by
  have hload : Quiet queued s (addUninterruptible s p (-1)) := quiet_addUninterruptible s p _
  have hidle := h.core.schedClass_ne_idle hp
  have hvalid := h.core.valid p
  have hkeeps := keeps_activateTask K s p { wakeup := wakeup, head := false }
  have hcore := hkeeps.setTask_core p fun t => { t with onRq := true }
  have hlayout := (h.layout.quiet hload).enqueueTask hK (p := p) (Core.place_of_off hoff)
    (by rwa [hload.task]) (by rw [hload.task]; exact hvalid.prio)
    { wakeup := wakeup, head := false }
  rw [hload.task] at hlayout
  refine Moves.stays_of_setTask (.of_setTask h hp (hvalid.setOnRq true) hidle hcore
    (hlayout.setTask p _) hkeeps.wrrThrottled
    (fun b _ => notOvertaken_enqueue b wrr _ p fun _ => rfl) hkeeps.picks (hkeeps.resched _))
    hcore fun _ => rfl

/-- `deactivate_task`, with the `on_rq` that its caller clears. -/
theorem Consistent.deactivate (hK : Laws K queued) (h : Consistent K queued s wrr)
    (hp : p ∈ s.core.tasklist) (hon : (s.task p).onRq = true) (sleep : Bool) :
    Moves K queued p s
      ((deactivateTask K s p sleep).setTask p fun t => { t with onRq := false })
      wrr (wrr.erase p) := by
  have hload : Quiet queued s (addUninterruptible s p 1) := quiet_addUninterruptible s p _
  have hidle := h.core.schedClass_ne_idle hp
  have hvalid := h.core.valid p
  have hkeeps := keeps_deactivateTask K s p sleep
  have hlayout := (h.layout.quiet hload).dequeueTask hK (p := p)
    (by rw [hload.task]; exact Core.place_of_on hon) (by rwa [hload.task]) sleep
  have hcore := hkeeps.setTask_core p fun t => { t with onRq := false }
  exact .of_setTask h hp (hvalid.setOnRq false) hidle hcore (hlayout.setTask p _)
    hkeeps.wrrThrottled (fun b hb => notOvertaken_erase hb.symm wrr) hkeeps.picks
    (hkeeps.resched _)

/-- The frame of the four functions that change a task under the lock: take it off its queue, write
it, and put it back. -/
theorem Consistent.change (hK : Laws K queued) (h : Consistent K queued s wrr)
    (hp : p ∈ s.core.tasklist) {f : TaskStruct → TaskStruct} (hvalid : (f (s.task p)).Valid)
    (hclass : (f (s.task p)).schedClass ≠ .idle) (hon : (f (s.task p)).onRq = (s.task p).onRq)
    {s₁ s₂ : Sys T E}
    (hout : Quiet queued (if (s.task p).onRq then dequeueTask K s p false else s) s₁)
    (hin : Quiet queued (s₁.setTask p f) s₂) (head : Bool)
    (hhead : (f (s.task p)).schedClass = .wrr → head = false) :
    ∃ wrr', Stays K queued p s
      (if (s.task p).onRq then enqueueTask K s₂ p { wakeup := false, head := head } else s₂)
      wrr wrr' := by
  have hdequeue : Keeps s s₁ :=
    (Keeps.ite (keeps_dequeueTask K s p false) (.refl s)).trans hout.toKeeps
  have hcore : s₂.core = s.core.setTask p f := by
    rw [hin.core, hdequeue.setTask_core]
  have htask : s₂.task p = f (s.task p) := by rw [Sys.task, hcore, Core.setTask_self]
  have hthrottled := hin.wrrThrottled.trans hdequeue.wrrThrottled
  have hpicks : s₂.wrrPicks = s.wrrPicks := hin.picks.trans hdequeue.picks
  have hresched : s.needResched s.core.curr = true → s₂.needResched s.core.curr = true :=
    fun hflag => hin.resched _ (hdequeue.resched _ hflag)
  have honRq : (s.task p).onRq = true → (f (s.task p)).onRq = true := fun hr => hon.trans hr
  cases honp : (s.task p).onRq with
  | false =>
      rw [honp, if_neg (by simp)] at hout
      rw [if_neg (by simp)]
      have hlayout := ((h.layout.quiet hout).setTask p f).quiet hin
      have hsame : s.core.place = Function.update s.core.place p (f (s.task p)).place := by
        rw [TaskStruct.place, hon, honp, if_neg (by simp), ← Core.place_of_off honp,
          Function.update_eq_self]
      exact ⟨wrr, Moves.stays_of_setTask (.of_setTask h hp hvalid hclass hcore (hsame ▸ hlayout)
        hthrottled (fun b _ => .refl b wrr) hpicks hresched) hcore honRq⟩
  | true =>
      rw [honp, if_pos rfl] at hout
      rw [if_pos rfl]
      have hdeq := h.layout.dequeueTask hK (p := p) (Core.place_of_on honp)
        (h.core.schedClass_ne_idle hp) false
      have hmid := ((hdeq.quiet hout).setTask p f).quiet hin
      have henq := hmid.enqueueTask hK (p := p) (Function.update_self _ _ _) (by rwa [htask])
        (by rw [htask]; exact hvalid.prio) { wakeup := false, head := head }
      have hkeeps := keeps_enqueueTask K s₂ p { wakeup := false, head := head }
      have hcore' := hkeeps.core.trans hcore
      have hsame : Function.update (Function.update s.core.place p .off) p (s₂.task p).spot =
          Function.update s.core.place p (f (s.task p)).place := by
        rw [Function.update_idem, htask, TaskStruct.place, hon, honp, if_pos rfl]
      refine ⟨_, Moves.stays_of_setTask (.of_setTask h hp hvalid hclass hcore' (hsame ▸ henq)
        (hkeeps.wrrThrottled.trans hthrottled) (fun b hb => ?_) (hkeeps.picks.trans hpicks)
        fun hflag => hkeeps.resched _ (hresched hflag)) hcore' honRq⟩
      refine (notOvertaken_erase hb.symm wrr).trans (notOvertaken_enqueue b _ _ p ?_)
      rwa [htask]

/-! ## Waking -/

lemma Consistent.setState (h : Consistent K queued s wrr) (hp : p ∈ s.core.tasklist) (state : ℕ)
    (q : T) : Stays K queued q s (s.setTask p fun t => { t with state := state }) wrr wrr :=
  h.setTask hp ((h.core.valid p).setState state) (h.core.schedClass_ne_idle hp) rfl rfl q

lemma Consistent.writeField (h : Consistent K queued s wrr) (hp : p ∈ s.core.tasklist)
    (field : TaskField) (q : T) :
    Stays K queued q s (s.setTask p fun t => field.write t) wrr wrr := by
  refine h.setTask hp ((h.core.valid p).writeField field) ?_ (field.write_onRq _)
    (by cases field <;> rfl) q
  rw [field.write_schedClass]
  exact h.core.schedClass_ne_idle hp

lemma Consistent.ttwuDoWakeup (hK : Laws K queued) (h : Consistent K queued s wrr)
    (hp : p ∈ s.core.tasklist) (q : T) :
    Stays K queued q s (ttwuDoWakeup K s p) wrr wrr := by
  have hcheck := h.quiet (quiet_checkPreemptCurr hK.toQuietHooks s p) q
  exact hcheck.trans (hcheck.consistent.setState (hcheck.tasklist p hp) taskRunning q)

lemma Consistent.ttwuActivate (hK : Laws K queued) (h : Consistent K queued s wrr)
    (hp : p ∈ s.core.tasklist) (hoff : (s.task p).onRq = false) (q : T) :
    Stays K queued q s (Sched.ttwuDoWakeup K (Sched.ttwuActivate K s p) p) wrr
      (wrrAfterEnqueue wrr (s.task p) p false) := by
  have hactivate := h.activate hK hp hoff true q
  exact hactivate.trans (hactivate.consistent.ttwuDoWakeup hK (hactivate.tasklist p hp) q)

/-- **Waking puts tasks at the end of the queue only.** -/
theorem Consistent.tryToWakeUp (hK : Laws K queued) (h : Consistent K queued s wrr)
    (hp : p ∈ s.core.tasklist) (state : ℕ) (q : T) :
    ∃ wrr', Stays K queued q s (tryToWakeUp K s p state) wrr wrr' := by
  rw [Sched.tryToWakeUp]
  split_ifs with hstate hon
  · exact ⟨wrr, .refl h q⟩
  · exact ⟨wrr, h.ttwuDoWakeup hK hp q⟩
  · exact ⟨_, h.ttwuActivate hK hp (Bool.eq_false_of_not_eq_true hon) q⟩

lemma Consistent.tryToWakeUpLocal (hK : Laws K queued) (h : Consistent K queued s wrr)
    (hp : p ∈ s.core.tasklist) (q : T) :
    ∃ wrr', Stays K queued q s (tryToWakeUpLocal K s p) wrr wrr' := by
  rw [Sched.tryToWakeUpLocal]
  split_ifs with hcurr hstate hon
  · exact ⟨wrr, h.quiet (quiet_warnOn s true (by simp)) q⟩
  · exact ⟨wrr, .refl h q⟩
  · exact ⟨wrr, h.ttwuDoWakeup hK hp q⟩
  · exact ⟨_, h.ttwuActivate hK hp (Bool.eq_false_of_not_eq_true hon) q⟩

lemma Consistent.wakeUpNewTask (hK : Laws K queued) (h : Consistent K queued s wrr)
    (hp : p ∈ s.core.tasklist) (hoff : (s.task p).onRq = false) (q : T) :
    ∃ wrr', Stays K queued q s (wakeUpNewTask K s p) wrr wrr' := by
  have hactivate := h.activate hK hp hoff false q
  exact ⟨_, hactivate.trans
    (hactivate.consistent.quiet (quiet_checkPreemptCurr hK.toQuietHooks _ p) q)⟩

/-! ## Yield and tick -/

lemma notOvertaken_requeued {b : T} (hne : p ≠ b) (wrr : List T) :
    NotOvertaken b wrr (requeued wrr p false) := by
  rw [requeued]
  split_ifs
  · exact (notOvertaken_erase hne wrr).trans (notOvertaken_append b _ [p])
  · exact .refl b wrr

lemma MaybeRequeued.order (h : MaybeRequeued s wrr wrr') {b : T} (hb : b ≠ s.core.curr) :
    NotOvertaken b wrr wrr' := by
  rcases h with rfl | ⟨-, rfl⟩
  · exact .refl b _
  · exact notOvertaken_requeued hb.symm wrr

omit [DecidableEq T] in
/-- The place of a task of the RT class names its priority. -/
lemma Core.prio_of_place {c : Core T} {i : ℤ} (h : c.place p = .rt i) : i = (c.task p).prio := by
  cases hon : (c.task p).onRq with
  | false =>
      rw [Core.place_of_off hon] at h
      exact Place.noConfusion h
  | true =>
      rw [Core.place_of_on hon, TaskStruct.spot_eq_rt_iff] at h
      exact h.2.symm

/-- Steps that keep the tasks and move nobody but `q`. -/
lemma Consistent.keeps (h : Consistent K queued s wrr) (hkeeps : Keeps s s')
    (hlayout : Layout queued s' s.core.place wrr')
    (horder : ∀ b, b ≠ q → NotOvertaken b wrr wrr') : Stays K queued q s s' wrr wrr' where
  consistent :=
    ⟨hkeeps.core ▸ h.core, hkeeps.core ▸ hlayout, hkeeps.wrrThrottled.trans h.wrrThrottled⟩
  curr := by rw [hkeeps.core]
  idle := by rw [hkeeps.core]
  tasklist := fun p hp => by rwa [hkeeps.core]
  order := horder
  picks := hkeeps.picks
  resched := hkeeps.resched _
  onRq := fun p hp => by rwa [hkeeps.task]

theorem Consistent.yieldTask (hK : Laws K queued) (h : Consistent K queued s wrr) :
    ∃ wrr', Stays K queued s.core.curr s (yieldTask K s) wrr wrr' := by
  rcases h.layout.yieldTask hK fun i hi => Core.prio_of_place hi with ⟨wrr', hwrr, hlayout⟩
  exact ⟨wrr', h.keeps (keeps_yieldTask K s) hlayout fun b hb => hwrr.order hb⟩

lemma valid_incPrioWrr {t : TaskStruct} (h : t.Valid) (hclass : t.schedClass = .wrr) :
    (incPrioWrr t).Valid := by
  refine ⟨⟨h.normalPrio, h.staticPrio, h.rtPriority, h.topPiWaiter⟩, fun hrt => ?_⟩
  rw [show (incPrioWrr t).schedClass = t.schedClass from rfl, hclass] at hrt
  exact SchedClass.noConfusion hrt

/-- The priority has no part in the place of a WRR task. -/
lemma place_incPrioWrr {t : TaskStruct} (hclass : t.schedClass = .wrr) :
    (incPrioWrr t).place = t.place := by
  have hspot : (incPrioWrr t).spot = t.spot := by
    rw [t.spot_eq_wrr_iff.mpr hclass]
    exact (incPrioWrr t).spot_eq_wrr_iff.mpr hclass
  rw [TaskStruct.place, hspot]
  rfl

theorem Consistent.classTaskTick (hK : Laws K queued) (h : Consistent K queued s wrr)
    (hcurr : (s.task s.core.curr).schedClass = .wrr → s.core.curr ∈ s.core.tasklist) :
    ∃ wrr', Stays K queued s.core.curr s (classTaskTick K s) wrr wrr' := by
  rcases h.layout.classTaskTick hK fun i hi => Core.prio_of_place hi with ⟨wrr', hwrr, hlayout⟩
  refine ⟨wrr', ?_⟩
  rcases keeps_classTaskTick K s with hsame | ⟨hclass, hinc⟩
  · exact h.keeps hsame hlayout fun b hb => hwrr.order hb
  · have hplace := place_incPrioWrr hclass
    have hset := h.setTask (hcurr hclass) (valid_incPrioWrr (h.core.valid _) hclass)
      (by rw [show (incPrioWrr _).schedClass = _ from hclass]; simp) rfl hplace s.core.curr
    refine hset.trans (hset.consistent.keeps hinc ?_ fun b hb => hwrr.order hb)
    have hsame : (s.setTask s.core.curr incPrioWrr).core.place = s.core.place := by
      rw [setTask_core, Core.place_setTask, hplace]
      exact Function.update_eq_self _ _
    rwa [hsame]

theorem Consistent.schedulerTick (hK : Laws K queued) (h : Consistent K queued s wrr)
    (hcurr : (s.task s.core.curr).schedClass = .wrr → s.core.curr ∈ s.core.tasklist) :
    ∃ wrr', Stays K queued s.core.curr s (schedulerTick K s) wrr wrr' := by
  have hclock : Quiet queued s (updateRqClock K s) := quiet_updateRqClock K s
  have hstays := h.quiet hclock s.core.curr
  have hcore := hclock.core
  rcases hstays.consistent.classTaskTick hK (by rwa [Sys.task, hcore]) with ⟨wrr', htick⟩
  rw [hcore] at htick
  exact ⟨wrr', hstays.trans htick⟩

/-! ## Changing a task -/

/-- What `__sched_setscheduler` and `rt_mutex_setprio` share: the task is off its queue, and not
the current one of its class, while it is written. -/
def changeTask (K : Kernel T E) (s : Sys T E) (p : T) (f : TaskStruct → TaskStruct) (head : Bool) :
    Sys T E :=
  let s₁ := if (s.task p).onRq then dequeueTask K s p false else s
  let s₂ := (if s.core.curr = p then classPutPrevTask K s₁ p else s₁).setTask p f
  let s₃ := if s.core.curr = p then classSetCurrTask K s₂ else s₂
  if (s.task p).onRq then enqueueTask K s₃ p { wakeup := false, head := head } else s₃

theorem Consistent.changeTask (hK : Laws K queued) (h : Consistent K queued s wrr)
    (hp : p ∈ s.core.tasklist) {f : TaskStruct → TaskStruct} (hvalid : (f (s.task p)).Valid)
    (hclass : (f (s.task p)).schedClass ≠ .idle) (hon : (f (s.task p)).onRq = (s.task p).onRq)
    (head : Bool) (hhead : (f (s.task p)).schedClass = .wrr → head = false) :
    ∃ wrr', Stays K queued p s (changeTask K s p f head) wrr wrr' := by
  refine h.change hK hp hvalid hclass hon (.ite ?_ (.refl _)) (.ite ?_ (.refl _)) head hhead
  · exact quiet_classPutPrevTask hK.toQuietHooks _ p
  · exact quiet_classSetCurrTask hK.toQuietHooks _

/-- The task while it is off its queue. -/
lemma task_beforeChange (s : Sys T E) (p q : T) :
    (if s.core.curr = p then
        classPutPrevTask K (if (s.task p).onRq then dequeueTask K s p false else s) p
      else if (s.task p).onRq then dequeueTask K s p false else s).task q = s.task q := by
  have hdequeue : Keeps s (if (s.task p).onRq then dequeueTask K s p false else s) :=
    .ite (keeps_dequeueTask K s p false) (.refl s)
  have hput := (quiet_classPutPrevTask (quietHooks_unit K)
    (if (s.task p).onRq then dequeueTask K s p false else s) p).toKeeps
  exact (Keeps.ite (hdequeue.trans hput) hdequeue).task q

/-- Whatever surrounds it, a change writes the task and nothing else. -/
lemma core_change {p : T} {f : TaskStruct → TaskStruct} {s s₁ s₂ : Sys T E} (hout : Keeps s s₁)
    (hin : Keeps (s₁.setTask p f) s₂) {c : Prop} [Decidable c] (flags : EnqueueFlags) :
    (if c then enqueueTask K s₂ p flags else s₂).core = s.core.setTask p f := by
  have henqueue : Keeps s₂ (if c then enqueueTask K s₂ p flags else s₂) :=
    .ite (keeps_enqueueTask K s₂ p flags) (.refl s₂)
  rw [henqueue.core, hin.core, hout.setTask_core]

lemma core_changeTask (s : Sys T E) (p : T) (f : TaskStruct → TaskStruct) (head : Bool) :
    (Sched.changeTask K s p f head).core = s.core.setTask p f := by
  have hput := fun s : Sys T E => (quiet_classPutPrevTask (quietHooks_unit K) s p).toKeeps
  have hset := fun s : Sys T E => (quiet_classSetCurrTask (quietHooks_unit K) s).toKeeps
  have hdequeue : Keeps s (if (s.task p).onRq then dequeueTask K s p false else s) :=
    .ite (keeps_dequeueTask K s p false) (.refl s)
  exact core_change (hdequeue.trans (.ite (hput _) (.refl _))) (.ite (hset _) (.refl _)) _

/-- The change writes the task and tells the classes. -/
lemma setschedulerChange_eq (s : Sys T E) (p : T) (policy prio : ℤ) (resetOnFork : Bool) :
    setschedulerChange K s p policy prio resetOnFork =
      checkClassChanged K
        (Sched.changeTask K s p (fun t =>
          Sched.setscheduler { t with schedResetOnFork := resetOnFork } policy prio) false)
        p (s.task p).schedClass (s.task p).prio :=
  congrArg (fun t : TaskStruct => checkClassChanged K (Sched.changeTask K s p _ false) p
    t.schedClass t.prio) (task_beforeChange s p p)

/-- Where `__sched_setscheduler` does anything, it changes the task and tells the classes. -/
lemma setschedulerLocked_eq (s : Sys T E) (p : T) (policy prio : ℤ) (resetOnFork : Bool) :
    (setschedulerLocked K s p policy prio resetOnFork).2 =
      if s.core.stop = some p then s
      else if policy = (s.task p).policy ∧
          (rtPolicy policy = false ∨ prio = (s.task p).rtPriority) then s
      else checkClassChanged K
        (Sched.changeTask K s p (fun t =>
          Sched.setscheduler { t with schedResetOnFork := resetOnFork } policy prio) false)
        p (s.task p).schedClass (s.task p).prio := by
  rw [setschedulerLocked, ← setschedulerChange_eq]
  split_ifs
  · rfl
  · rfl
  · rfl

lemma TaskStruct.InRange.setResetOnFork {t : TaskStruct} (h : t.InRange) (b : Bool) :
    ({ t with schedResetOnFork := b } : TaskStruct).InRange :=
  ⟨h.normalPrio, h.staticPrio, h.rtPriority, h.topPiWaiter⟩

lemma ValidParam.rtPriority {policy prio : ℤ} (h : ValidParam policy prio) :
    0 ≤ prio ∧ prio < maxRtPrio :=
  ⟨h.2.1, lt_of_le_of_lt h.2.2.1 (by decide)⟩

/-- The change that `__sched_setscheduler` makes before it tells the classes. -/
lemma Consistent.changeTask_setscheduler (hK : Laws K queued) (h : Consistent K queued s wrr)
    (hp : p ∈ s.core.tasklist) {policy prio : ℤ} (hparam : ValidParam policy prio)
    (resetOnFork : Bool) :
    ∃ wrr', Stays K queued p s (Sched.changeTask K s p (fun t =>
      Sched.setscheduler { t with schedResetOnFork := resetOnFork } policy prio) false) wrr wrr' :=
  h.changeTask hK hp
    (valid_setscheduler ((h.core.valid p).setResetOnFork resetOnFork) hparam.rtPriority)
    (setscheduler_schedClass_ne_idle _ _ _) (setscheduler_onRq _ _ _) false (fun _ => rfl)

theorem Consistent.setscheduler (hK : Laws K queued) (h : Consistent K queued s wrr)
    (hp : p ∈ s.core.tasklist) {policy prio : ℤ} (hparam : ValidParam policy prio)
    (resetOnFork : Bool) :
    ∃ wrr', Stays K queued p s (setschedulerLocked K s p policy prio resetOnFork).2 wrr wrr' := by
  rw [setschedulerLocked_eq]
  split_ifs
  · exact ⟨wrr, .refl h p⟩
  · exact ⟨wrr, .refl h p⟩
  · rcases h.changeTask_setscheduler hK hp hparam resetOnFork with ⟨wrr', hchange⟩
    exact ⟨wrr', hchange.trans
      (hchange.consistent.quiet (quiet_checkClassChanged hK.toQuietHooks _ p _ _) p)⟩

/-- The part of `set_user_nice` for other policies than the real-time ones, up to a flag. -/
lemma quiet_setUserNice {X : Type} {view : E → X} {s : Sys T E} {p : T} {nice : ℤ}
    (hnice : ¬(prioToNice (s.task p).staticPrio = nice ∨ nice < -20 ∨ nice > 19))
    (hrt : rtPolicy (s.task p).policy = false) :
    Quiet view
      (if (s.task p).onRq then
        enqueueTask K ((if (s.task p).onRq then dequeueTask K s p false else s).setTask p
          fun t => renicedTask t nice) p { wakeup := false, head := false }
      else (if (s.task p).onRq then dequeueTask K s p false else s).setTask p
        fun t => renicedTask t nice)
      (Sched.setUserNice K s p nice) := by
  have hrt' : ¬rtPolicy (s.task p).policy = true := by simp [hrt]
  rw [Sched.setUserNice, if_neg hnice, if_neg hrt']
  cases hon : (s.task p).onRq with
  | false => exact .refl _
  | true =>
      simp only [if_true]
      exact .ite (quiet_reschedTask _ _) (.refl _)

theorem Consistent.setUserNice (hK : Laws K queued) (h : Consistent K queued s wrr)
    (hp : p ∈ s.core.tasklist) (nice : ℤ) :
    ∃ wrr', Stays K queued p s (setUserNice K s p nice) wrr wrr' := by
  have hvalid := h.core.valid p
  have hidle := h.core.schedClass_ne_idle hp
  by_cases hout : prioToNice (s.task p).staticPrio = nice ∨ nice < -20 ∨ nice > 19
  · rw [Sched.setUserNice, if_pos hout]
    exact ⟨wrr, .refl h p⟩
  · have hnice : -20 ≤ nice ∧ nice ≤ 19 := by omega
    cases hrt : rtPolicy (s.task p).policy with
    | true =>
        rw [Sched.setUserNice, if_neg hout, if_pos hrt]
        exact ⟨wrr, h.setTask hp ⟨hvalid.setStaticPrio hnice, hvalid.prio⟩ hidle rfl rfl p⟩
    | false =>
        rcases h.change hK hp (f := fun t => renicedTask t nice) (valid_renicedTask hvalid hnice)
          (by rwa [renicedTask_schedClass]) (renicedTask_onRq _ _) (.refl _) (.refl _)
          false (fun _ => rfl) with ⟨wrr', hchange⟩
        exact ⟨wrr', hchange.trans (hchange.consistent.quiet (quiet_setUserNice hout hrt) p)⟩

/-- Where `rt_mutex_setprio` does anything, it changes the task and tells the classes. -/
lemma rtMutexSetprio_eq (s : Sys T E) (p : T) {prio : ℤ} (hprio : 0 ≤ prio ∧ prio ≤ maxPrio) :
    Sched.rtMutexSetprio K s p prio = .ok
      (if p = s.core.idle then s.warnOn (p != s.core.curr) .boostIdle
      else checkClassChanged K
        (Sched.changeTask K s p (fun t => boostedTask t prio) (decide ((s.task p).prio < prio)))
        p (s.task p).schedClass (s.task p).prio) := by
  rw [Sched.rtMutexSetprio, if_neg (by omega)]
  by_cases hidle : p = s.core.idle
  · rw [if_pos hidle, if_pos hidle]
  · rw [if_neg hidle, if_neg hidle]
    rfl

theorem Consistent.rtMutexSetprio (hK : Laws K queued) (h : Consistent K queued s wrr)
    (hp : p ∈ s.core.tasklist ∨ p = s.core.idle) {prio : ℤ} (hprio : 0 ≤ prio ∧ prio ≤ maxPrio) :
    ∃ s' wrr', rtMutexSetprio K s p prio = .ok s' ∧ Stays K queued p s s' wrr wrr' := by
  rw [rtMutexSetprio_eq s p hprio]
  by_cases hidle : p = s.core.idle
  · rw [if_pos hidle]
    exact ⟨_, wrr, rfl, h.quiet (quiet_warnOn s _ (by simp)) p⟩
  · rw [if_neg hidle]
    have hclass := boostedTask_schedClass (s.task p) prio
    rcases h.changeTask hK (hp.resolve_right hidle) (f := fun t => boostedTask t prio)
      (valid_boostedTask (h.core.valid p).toInRange hprio.1) hclass.1 rfl
      (decide ((s.task p).prio < prio)) (fun hwrr => absurd hwrr hclass.2) with
      ⟨wrr', hchange⟩
    exact ⟨_, wrr', rfl, hchange.trans
      (hchange.consistent.quiet (quiet_checkClassChanged hK.toQuietHooks _ p _ _) p)⟩

theorem Consistent.schedMoveTask (hK : Laws K queued) (h : Consistent K queued s wrr)
    (hp : p ∈ s.core.tasklist) (groupPath : String) :
    ∃ wrr', Stays K queued p s (schedMoveTask K s p groupPath) wrr wrr' := by
  have hvalid := h.core.valid p
  have hput : ∀ s₁ : Sys T E, Quiet queued s₁
      (if s.core.curr = p then classPutPrevTask K s₁ p else s₁) := fun s₁ =>
    .ite (quiet_classPutPrevTask hK.toQuietHooks s₁ p) (.refl s₁)
  refine h.change hK hp (f := fun t => { t with schedTaskGroup := groupPath })
    ⟨⟨hvalid.normalPrio, hvalid.staticPrio, hvalid.rtPriority, hvalid.topPiWaiter⟩, hvalid.prio⟩
    (h.core.schedClass_ne_idle hp) rfl (hput _) ?_ false (fun _ => rfl)
  refine Quiet.trans (.ite ?_ (.refl _)) (.ite ?_ (.refl _))
  · exact quiet_applyHook _ (hK.taskMoveGroup _ _ _ _)
  · exact quiet_classSetCurrTask hK.toQuietHooks _

/-! ## Forking -/

/-- What `sched_fork` does before it calls into the fair class. -/
def forkedSys (s : Sys T E) (p : T) : Sys T E :=
  (schedForkRaw (dupTaskStruct s p) p).setTask p fun t =>
    schedForkFields t (s.task s.core.curr).normalPrio

lemma core_forkedSys (s : Sys T E) (p : T) : (forkedSys s p).core = s.core.fork p := by
  simp [forkedSys, schedForkRaw, dupTaskStruct, Sys.setTask, Sys.setSe, Sys.setQueues, Core.fork,
    Core.setTask, forkedTask]

lemma schedFork_eq (s : Sys T E) (p : T) : schedFork K s p =
    if ((forkedSys s p).task p).schedClass = .fair then
      (forkedSys s p).applyHook (K.taskForkOther .fair (forkedSys s p) p)
    else forkedSys s p := rfl

lemma quiet_schedFork {X : Type} {view : E → X} (hK : QuietHooks K view) (s : Sys T E) (p : T) :
    Quiet view (forkedSys s p) (schedFork K s p) := by
  rw [schedFork_eq]
  exact .ite (quiet_applyHook _ (hK.taskFork _ _ _)) (.refl _)

/-- **The child is off the run queue.** -/
theorem Consistent.schedFork (hK : Laws K queued) (h : Consistent K queued s wrr)
    (hp : p ∉ s.core.tasklist) (hidle : p ≠ s.core.idle) (hcurr : p ≠ s.core.curr) (q : T) :
    Stays K queued q s (schedFork K s p) wrr wrr := by
  have hoff : (s.task p).onRq = false :=
    Bool.eq_false_of_not_eq_true fun hon => hp (h.core.listed p hon)
  have hplace : (forkedSys s p).core.place = s.core.place := by
    rw [core_forkedSys]
    funext r
    rcases eq_or_ne r p with rfl | hne
    · rw [Core.place_of_off hoff]
      refine Core.place_of_off ?_
      rw [Core.fork_self, forkedTask_onRq]
    · rw [Core.place, Core.fork_of_ne _ hne, Core.place]
  have hlayout : Layout queued (forkedSys s p) s.core.place wrr := by
    rcases h.layout.sound with ⟨rt, hs, hmem⟩
    have hwrr : p ∉ wrr := by simp [h.layout.mem_wrr, Core.place_of_off hoff]
    have hrt : ∀ i, p ∉ rt i := fun i => by simp [hmem, Core.place_of_off hoff]
    have hinit := hs.initEntries hwrr hrt
    exact ⟨⟨rt, ⟨hinit.represents, hinit.wrrNr, hinit.rtNr, hinit.bitmap, hinit.range,
      hinit.noWarning⟩, hmem⟩, h.layout.mem_wrr, h.layout.mem_other, h.layout.nr⟩
  have hforked : Consistent K queued (forkedSys s p) wrr :=
    ⟨core_forkedSys s p ▸ h.core.fork hidle, hplace.symm ▸ hlayout, h.wrrThrottled⟩
  refine Stays.trans ⟨⟨hforked, rfl, rfl, fun r hr => ?_, fun b _ => .refl b wrr, rfl, ?_⟩, ?_⟩
    (hforked.quiet (quiet_schedFork hK.toQuietHooks s p) q)
  · exact List.mem_cons_of_mem p hr
  · intro hflag
    exact (Function.update_of_ne hcurr.symm _ _).trans hflag
  · intro r hr
    have hne : r ≠ p := by
      rintro rfl
      rw [hoff] at hr
      exact Bool.noConfusion hr
    rwa [Sys.task, core_forkedSys, Core.fork_of_ne _ hne]

end

end Sched
