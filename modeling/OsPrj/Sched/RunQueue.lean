import OsPrj.Sched.Frame
import Mathlib.Algebra.BigOperators.Ring.Finset
import Mathlib.Algebra.Order.BigOperators.Group.Finset
import Mathlib.Order.Interval.Finset.Basic
import Mathlib.Data.Int.Interval
import Mathlib.Order.ConditionallyCompleteLattice.Basic
import Mathlib.Data.Int.ConditionallyCompleteOrder

/-!
# The queues of the RT and the WRR class

What `enqueue`, `dequeue` and `requeue` of the two classes do to the lists in memory and to the
counters beside them, for any task and any flags.

* `Sound s wrr rt` — the memory holds the queue `wrr` and the array of queues `rt`, the counters
  and the bitmap agree with them, and `dec_wrr_tasks` has not warned.
* `Sound.enqueueTaskWrr`, `Sound.dequeueTaskWrr`, `Sound.requeueTaskWrr`, and the same for RT.
-/

namespace Sched

open ListHead

variable {T E : Type}

/-- The lists of all heads. -/
def queueLists (wrr : List T) (rt : ℤ → List T) : QueueHead → List (Entity T)
  | .wrrQueue => wrr.map .wrr
  | .queue i => (rt i).map .rt

lemma queueLists_update_wrr (wrr wrr' : List T) (rt : ℤ → List T) :
    Function.update (queueLists wrr rt) .wrrQueue (wrr'.map .wrr) = queueLists wrr' rt := by
  funext h
  cases h with
  | wrrQueue => rw [Function.update_self]; rfl
  | queue i => rw [Function.update_of_ne (by simp)]; rfl

lemma queueLists_update_rt (wrr : List T) (rt : ℤ → List T) (i : ℤ) (l : List T) :
    Function.update (queueLists wrr rt) (.queue i) (l.map .rt)
      = queueLists wrr (Function.update rt i l) := by
  funext h
  cases h with
  | wrrQueue => rw [Function.update_of_ne (by simp)]; rfl
  | queue j =>
      rcases eq_or_ne j i with rfl | hj
      · simp [queueLists]
      · rw [Function.update_of_ne (by simpa using hj)]
        simp [queueLists, Function.update_of_ne hj]

/-- `list_add` or `list_add_tail`, on the list. -/
def addTo (l : List T) (p : T) (head : Bool) : List T := if head then p :: l else l ++ [p]

@[simp] lemma length_addTo (l : List T) (p : T) (head : Bool) :
    (addTo l p head).length = l.length + 1 := by
  cases head <;> simp [addTo]

@[simp] lemma mem_addTo {l : List T} {p q : T} {head : Bool} :
    q ∈ addTo l p head ↔ q = p ∨ q ∈ l := by
  cases head <;> simp [addTo, or_comm]

lemma addTo_ne_nil (l : List T) (p : T) (head : Bool) : addTo l p head ≠ [] := by
  cases head <;> simp [addTo]

lemma wrr_notMem_lists {wrr : List T} {rt : ℤ → List T} {p : T} (hp : p ∉ wrr) (k : QueueHead) :
    Entity.wrr p ∉ queueLists wrr rt k := by
  cases k with
  | wrrQueue => simpa [queueLists] using hp
  | queue i => simp [queueLists]

lemma rt_notMem_lists {wrr : List T} {rt : ℤ → List T} {p : T} (hp : ∀ i, p ∉ rt i)
    (k : QueueHead) : Entity.rt p ∉ queueLists wrr rt k := by
  cases k with
  | wrrQueue => simp [queueLists]
  | queue i => simpa [queueLists] using hp i

variable [DecidableEq T]

lemma map_erase_wrr (l : List T) (p : T) :
    (l.map Entity.wrr).erase (.wrr p) = (l.erase p).map Entity.wrr := by
  refine (List.map_erase ?_ l).symm
  intro a b h
  simpa using h

lemma map_erase_rt (l : List T) (p : T) :
    (l.map Entity.rt).erase (.rt p) = (l.erase p).map Entity.rt := by
  refine (List.map_erase ?_ l).symm
  intro a b h
  simpa using h

/-- The queue after `requeue`. -/
def requeued (l : List T) (p : T) (head : Bool) : List T :=
  if p ∈ l then addTo (l.erase p) p head else l

lemma length_requeued (l : List T) (p : T) (head : Bool) :
    (requeued l p head).length = l.length := by
  rw [requeued]
  split_ifs with hp
  · have hlen := List.length_erase_of_mem hp
    have hpos := List.length_pos_of_mem hp
    rw [length_addTo]
    omega
  · rfl

/-! ## The link words -/

section Links

variable {L : Links (Node QueueHead (Entity T))} {wrr : List T} {rt : ℤ → List T} {p : T}

lemma represents_wrr_add (h : Represents L (queueLists wrr rt)) (hp : p ∉ wrr) (head : Bool) :
    Represents
      (if head then listAdd L (.node (.wrr p)) (.head .wrrQueue)
        else listAddTail L (.node (.wrr p)) (.head .wrrQueue))
      (queueLists (addTo wrr p head) rt) := by
  rw [← queueLists_update_wrr wrr]
  cases head with
  | false => simpa [queueLists, addTo] using h.addTail (wrr_notMem_lists hp) .wrrQueue
  | true => simpa [queueLists, addTo] using h.add (wrr_notMem_lists hp) .wrrQueue

lemma represents_wrr_del (h : Represents L (queueLists wrr rt)) (hp : p ∈ wrr) :
    Represents (listDelInit L (.node (.wrr p))) (queueLists (wrr.erase p) rt) := by
  have hmem : Entity.wrr p ∈ queueLists wrr rt .wrrQueue := List.mem_map_of_mem hp
  have hrep := h.delInit hmem
  rwa [queueLists, map_erase_wrr, queueLists_update_wrr] at hrep

lemma represents_wrr_move (h : Represents L (queueLists wrr rt)) (hp : p ∈ wrr) (head : Bool) :
    Represents
      (if head then listMove L (.node (.wrr p)) (.head .wrrQueue)
        else listMoveTail L (.node (.wrr p)) (.head .wrrQueue))
      (queueLists (requeued wrr p head) rt) := by
  have hmem : Entity.wrr p ∈ queueLists wrr rt .wrrQueue := List.mem_map_of_mem hp
  rw [← queueLists_update_wrr wrr, requeued, if_pos hp]
  cases head with
  | false => simpa [queueLists, addTo, map_erase_wrr] using h.moveTail hmem
  | true => simpa [queueLists, addTo, map_erase_wrr] using h.move hmem

lemma represents_rt_add (h : Represents L (queueLists wrr rt)) (hp : ∀ i, p ∉ rt i) (i : ℤ)
    (head : Bool) :
    Represents
      (if head then listAdd L (.node (.rt p)) (.head (.queue i))
        else listAddTail L (.node (.rt p)) (.head (.queue i)))
      (queueLists wrr (Function.update rt i (addTo (rt i) p head))) := by
  rw [← queueLists_update_rt]
  cases head with
  | false => simpa [queueLists, addTo] using h.addTail (rt_notMem_lists hp) (.queue i)
  | true => simpa [queueLists, addTo] using h.add (rt_notMem_lists hp) (.queue i)

lemma represents_rt_del (h : Represents L (queueLists wrr rt)) {i : ℤ} (hp : p ∈ rt i) :
    Represents (listDelInit L (.node (.rt p)))
      (queueLists wrr (Function.update rt i ((rt i).erase p))) := by
  have hmem : Entity.rt p ∈ queueLists wrr rt (.queue i) := List.mem_map_of_mem hp
  have hrep := h.delInit hmem
  rwa [queueLists, map_erase_rt, queueLists_update_rt] at hrep

lemma represents_rt_move (h : Represents L (queueLists wrr rt)) {i : ℤ} (hp : p ∈ rt i)
    (head : Bool) :
    Represents
      (if head then listMove L (.node (.rt p)) (.head (.queue i))
        else listMoveTail L (.node (.rt p)) (.head (.queue i)))
      (queueLists wrr (Function.update rt i (requeued (rt i) p head))) := by
  have hmem : Entity.rt p ∈ queueLists wrr rt (.queue i) := List.mem_map_of_mem hp
  rw [← queueLists_update_rt, requeued, if_pos hp]
  cases head with
  | false => simpa [queueLists, addTo, map_erase_rt] using h.moveTail hmem
  | true => simpa [queueLists, addTo, map_erase_rt] using h.move hmem

end Links

/-- The memory holds the queues, and what is kept beside them agrees. -/
structure Sound (s : Sys T E) (wrr : List T) (rt : ℤ → List T) : Prop where
  represents : Represents s.queues.links (queueLists wrr rt)
  wrrNr : s.queues.wrrNrRunning = wrr.length
  rtNr : s.queues.rtNrRunning = ∑ i ∈ Finset.Ico 0 maxRtPrio, ((rt i).length : ℤ)
  bitmap : ∀ i, s.queues.bitmap i = true ↔ rt i ≠ []
  range : ∀ i, rt i ≠ [] → 0 ≤ i ∧ i < maxRtPrio
  noWarning : Warning.decWrrTasks ∉ s.warnings

section Wrr

variable {s s' : Sys T E} {wrr : List T} {rt : ℤ → List T} {p : T}

lemma Sound.wrr_nodup (h : Sound s wrr rt) : wrr.Nodup :=
  List.Nodup.of_map _ (h.represents.nodup .wrrQueue)

lemma Sound.rt_nodup (h : Sound s wrr rt) (i : ℤ) : (rt i).Nodup :=
  List.Nodup.of_map _ (h.represents.nodup (.queue i))

/-- `on_wrr_rq` tells whether the task is in the queue. -/
lemma onWrrRq_iff (h : Sound s wrr rt) : onWrrRq s p = true ↔ p ∈ wrr := by
  rw [onWrrRq, Bool.not_eq_true']
  constructor
  · intro he
    by_contra hp
    rw [h.represents.listEmpty_node_of_notMem (wrr_notMem_lists hp)] at he
    exact Bool.noConfusion he
  · intro hp
    have hmem : Entity.wrr p ∈ queueLists wrr rt .wrrQueue := List.mem_map_of_mem hp
    exact h.represents.listEmpty_node_of_mem hmem

/-- `on_rt_rq` tells whether the task is in one of the queues. -/
lemma onRtRq_iff (h : Sound s wrr rt) : onRtRq s p = true ↔ ∃ i, p ∈ rt i := by
  rw [onRtRq, Bool.not_eq_true']
  constructor
  · intro he
    by_contra hp
    rw [h.represents.listEmpty_node_of_notMem (rt_notMem_lists (not_exists.mp hp))] at he
    exact Bool.noConfusion he
  · rintro ⟨i, hp⟩
    have hmem : Entity.rt p ∈ queueLists wrr rt (.queue i) := List.mem_map_of_mem hp
    exact h.represents.listEmpty_node_of_mem hmem

/-- Quiet steps keep the queues sound. -/
lemma Sound.quiet {X : Type} {view : E → X} (h : Sound s wrr rt) (hq : Quiet view s s') :
    Sound s' wrr rt where
  represents := hq.queues ▸ h.represents
  wrrNr := hq.queues ▸ h.wrrNr
  rtNr := hq.queues ▸ h.rtNr
  bitmap := hq.queues ▸ h.bitmap
  range := h.range
  noWarning := fun hw => h.noWarning (hq.warnings hw)

/-- `rq->nr_running` has no part in it. -/
lemma Sound.setNrRunning (h : Sound s wrr rt) (n : ℤ) :
    Sound (s.setQueues { s.queues with nrRunning := n }) wrr rt :=
  ⟨h.represents, h.wrrNr, h.rtNr, h.bitmap, h.range, h.noWarning⟩

/-- `INIT_LIST_HEAD` on the entries of a task that is in no queue. -/
lemma Sound.initEntries (h : Sound s wrr rt) (hwrr : p ∉ wrr) (hrt : ∀ i, p ∉ rt i) :
    Sound (s.setQueues { s.queues with
      links := initListHead (initListHead s.queues.links (.node (.rt p))) (.node (.wrr p)) })
      wrr rt where
  represents := (h.represents.initListHead (rt_notMem_lists hrt)).initListHead
    (wrr_notMem_lists hwrr)
  wrrNr := h.wrrNr
  rtNr := h.rtNr
  bitmap := h.bitmap
  range := h.range
  noWarning := h.noWarning

/-! ## The WRR queue -/

lemma Sound.dequeueWrrStack (h : Sound s wrr rt) (p : T) :
    Sound (dequeueWrrStack s p) (wrr.erase p) rt := by
  rw [Sched.dequeueWrrStack]
  split_ifs with hon
  · have hp := (onWrrRq_iff h).mp hon
    have hpos := List.length_pos_of_mem hp
    have hnr := h.wrrNr
    have hcount : (s.queues.wrrNrRunning == 0) = false := by
      rw [beq_eq_false_iff_ne]
      omega
    refine ⟨represents_wrr_del h.represents hp, ?_, h.rtNr, h.bitmap, h.range, ?_⟩
    · show s.queues.wrrNrRunning - 1 = _
      rw [List.length_erase_of_mem hp]
      omega
    · show Warning.decWrrTasks ∉ (Sys.warnOn _ (s.queues.wrrNrRunning == 0) _).warnings
      rw [hcount]
      exact h.noWarning
  · have hp : p ∉ wrr := fun hp => hon ((onWrrRq_iff h).mpr hp)
    rwa [List.erase_of_not_mem hp]

lemma Sound.enqueueWrrEntityRaw (h : Sound s wrr rt) (hp : p ∉ wrr) (head : Bool) :
    Sound (enqueueWrrEntityRaw s p head) (addTo wrr p head) rt where
  represents := represents_wrr_add h.represents hp head
  wrrNr := by
    have hnr := h.wrrNr
    show s.queues.wrrNrRunning + 1 = _
    rw [length_addTo]
    omega
  rtNr := h.rtNr
  bitmap := h.bitmap
  range := h.range
  noWarning := h.noWarning

lemma Sound.enqueueWrrEntity (h : Sound s wrr rt) (p : T) (head : Bool) :
    Sound (enqueueWrrEntity s p head) (addTo (wrr.erase p) p head) rt :=
  (h.dequeueWrrStack p).enqueueWrrEntityRaw h.wrr_nodup.not_mem_erase head

theorem Sound.enqueueTaskWrr (h : Sound s wrr rt) (p : T) (flags : EnqueueFlags) :
    Sound (enqueueTaskWrr s p flags) (addTo (wrr.erase p) p flags.head) rt :=
  have hreset : Quiet id s (resetTimeoutWrr s p flags) := quiet_resetTimeoutWrr s p flags
  ((h.quiet hreset).enqueueWrrEntity p flags.head).setNrRunning _

theorem Sound.dequeueTaskWrr (h : Sound s wrr rt) (p : T) :
    Sound (dequeueTaskWrr s p) (wrr.erase p) rt :=
  have hupdate : Quiet id s (updateCurrWrr s) := quiet_updateCurrWrr s
  ((h.quiet hupdate).dequeueWrrStack p).setNrRunning _

theorem Sound.requeueTaskWrr (h : Sound s wrr rt) (p : T) (head : Bool) :
    Sound (requeueTaskWrr s p head) (requeued wrr p head) rt := by
  rw [Sched.requeueTaskWrr]
  by_cases hp : p ∈ wrr
  · rw [if_pos ((onWrrRq_iff h).mpr hp)]
    refine ⟨represents_wrr_move h.represents hp head, ?_, h.rtNr, h.bitmap, h.range, h.noWarning⟩
    rw [length_requeued]
    exact h.wrrNr
  · rwa [if_neg fun hon => hp ((onWrrRq_iff h).mp hon), requeued, if_neg hp]

end Wrr

/-! ## The RT queues -/

section Rt

variable {s s' : Sys T E} {wrr : List T} {rt : ℤ → List T} {p : T}

omit [DecidableEq T] in
/-- Changing one queue changes the number of RT tasks by the difference of its lengths. -/
lemma sum_length_update (rt : ℤ → List T) {i : ℤ} (hi : 0 ≤ i ∧ i < maxRtPrio) (l : List T) :
    ∑ j ∈ Finset.Ico 0 maxRtPrio, ((Function.update rt i l j).length : ℤ)
      = ∑ j ∈ Finset.Ico 0 maxRtPrio, ((rt j).length : ℤ) - (rt i).length + l.length := by
  have hmem : i ∈ Finset.Ico 0 maxRtPrio := Finset.mem_Ico.mpr hi
  rw [← Finset.add_sum_erase _ _ hmem, ← Finset.add_sum_erase _ (fun j => ((rt j).length : ℤ)) hmem,
    Function.update_self]
  have hrest : ∑ j ∈ (Finset.Ico 0 maxRtPrio).erase i, ((Function.update rt i l j).length : ℤ)
      = ∑ j ∈ (Finset.Ico 0 maxRtPrio).erase i, ((rt j).length : ℤ) :=
    Finset.sum_congr rfl fun j hj => by rw [Function.update_of_ne (Finset.ne_of_mem_erase hj)]
  rw [hrest]
  omega

/-- The queues stay sound when one of the lists changes, with its bit and the counter. -/
lemma Sound.updateRt (h : Sound s wrr rt) {i : ℤ} {l : List T}
    (hi : l ≠ [] → 0 ≤ i ∧ i < maxRtPrio)
    (hrep : Represents s'.queues.links (queueLists wrr (Function.update rt i l)))
    (hwrr : s'.queues.wrrNrRunning = s.queues.wrrNrRunning)
    (hrt : s'.queues.rtNrRunning = s.queues.rtNrRunning - (rt i).length + l.length)
    (hbit : s'.queues.bitmap i = true ↔ l ≠ [])
    (hbits : ∀ j ≠ i, s'.queues.bitmap j = s.queues.bitmap j)
    (hwarn : Warning.decWrrTasks ∈ s'.warnings → Warning.decWrrTasks ∈ s.warnings) :
    Sound s' wrr (Function.update rt i l) where
  represents := hrep
  wrrNr := hwrr.trans h.wrrNr
  rtNr := by
    rw [hrt, h.rtNr]
    rcases eq_or_ne l [] with rfl | hl
    · rcases eq_or_ne (rt i) [] with hnil | hne
      · rw [hnil, ← hnil, Function.update_eq_self]
        simp [hnil]
      · exact (sum_length_update rt (h.range i hne) []).symm
    · exact (sum_length_update rt (hi hl) l).symm
  bitmap := by
    intro j
    rcases eq_or_ne j i with rfl | hj
    · rwa [Function.update_self]
    · rw [Function.update_of_ne hj, hbits j hj]
      exact h.bitmap j
  range := by
    intro j hj
    rcases eq_or_ne j i with rfl | hne
    · rw [Function.update_self] at hj
      exact hi hj
    · rw [Function.update_of_ne hne] at hj
      exact h.range j hj
  noWarning := fun hw => h.noWarning (hwarn hw)

/-- The two warnings of `rt.c` are others than that of `dec_wrr_tasks`. -/
lemma incRtTasks_warnings (s : Sys T E) (p : T) :
    Warning.decWrrTasks ∈ (incRtTasks s p).warnings → Warning.decWrrTasks ∈ s.warnings := by
  have hwarn : Quiet id s (s.warnOn (!rtPrio (rtSePrio s p)) .rtPrio) :=
    quiet_warnOn s _ (by simp)
  exact hwarn.warnings

lemma decRtTasks_warnings (s : Sys T E) (p : T) :
    Warning.decWrrTasks ∈ (decRtTasks s p).warnings → Warning.decWrrTasks ∈ s.warnings := by
  have hwarn : Quiet id s ((s.warnOn (!rtPrio (rtSePrio s p)) .rtPrio).warnOn
      (s.queues.rtNrRunning == 0) .decRtTasks) :=
    (quiet_warnOn s _ (by simp)).trans (quiet_warnOn _ _ (by simp))
  exact hwarn.warnings

lemma Sound.dequeueRtStack (h : Sound s wrr rt) (p : T)
    (hp : ∀ i, p ∈ rt i → i = (s.task p).prio) :
    Sound (dequeueRtStack s p) wrr
      (Function.update rt (s.task p).prio ((rt (s.task p).prio).erase p)) := by
  rw [Sched.dequeueRtStack]
  split_ifs with hon
  · rcases (onRtRq_iff h).mp hon with ⟨i, hi⟩
    obtain rfl : i = (s.task p).prio := hp i hi
    have hrep := represents_rt_del h.represents hi
    have hempty := hrep.listEmpty_head (.queue (s.task p).prio)
    have hlen := List.length_erase_of_mem hi
    have hpos := List.length_pos_of_mem hi
    simp only [queueLists, Function.update_self, List.isEmpty_map] at hempty
    refine h.updateRt (fun _ => h.range _ (List.ne_nil_of_mem hi)) hrep rfl ?_ ?_ ?_
      (decRtTasks_warnings _ _)
    · show s.queues.rtNrRunning - 1 = _
      omega
    · show (ite (listEmpty (listDelInit s.queues.links _) _ = true) _ _ : ℤ → Bool) _ = true ↔ _
      rw [rtSePrio, hempty]
      cases hl : (rt (s.task p).prio).erase p with
      | nil => simp
      | cons a l =>
          have hbit := (h.bitmap _).mpr (List.ne_nil_of_mem hi)
          simpa using hbit
    · intro j hj
      show (ite (listEmpty (listDelInit s.queues.links _) _ = true) _ _ : ℤ → Bool) j = _
      split_ifs
      · exact Function.update_of_ne hj _ _
      · rfl
  · have hnot : p ∉ rt (s.task p).prio := fun hmem => hon ((onRtRq_iff h).mpr ⟨_, hmem⟩)
    rwa [List.erase_of_not_mem hnot, Function.update_eq_self]

lemma Sound.enqueueRtEntityRaw (h : Sound s wrr rt) (hp : ∀ i, p ∉ rt i)
    (hprio : 0 ≤ (s.task p).prio ∧ (s.task p).prio < maxRtPrio) (head : Bool) :
    Sound (enqueueRtEntityRaw s p head) wrr
      (Function.update rt (s.task p).prio (addTo (rt (s.task p).prio) p head)) := by
  refine h.updateRt (fun _ => hprio) (represents_rt_add h.represents hp (s.task p).prio head) rfl
    ?_ ?_ ?_ (incRtTasks_warnings _ _)
  · show s.queues.rtNrRunning + 1 = _
    rw [length_addTo]
    omega
  · show Function.update s.queues.bitmap (s.task p).prio true (s.task p).prio = true ↔ _
    simp [addTo_ne_nil]
  · intro j hj
    exact Function.update_of_ne hj _ _

/-- In no queue after the task is taken from the one its priority names. -/
lemma Sound.notMem_erase_rt (h : Sound s wrr rt) {i : ℤ} (hp : ∀ j, p ∈ rt j → j = i) (j : ℤ) :
    p ∉ Function.update rt i ((rt i).erase p) j := by
  rcases eq_or_ne j i with rfl | hj
  · rw [Function.update_self]
    exact (h.rt_nodup j).not_mem_erase
  · rw [Function.update_of_ne hj]
    exact fun hmem => hj (hp j hmem)

lemma Sound.enqueueRtEntity (h : Sound s wrr rt) (p : T) (head : Bool)
    (hp : ∀ i, p ∈ rt i → i = (s.task p).prio)
    (hprio : 0 ≤ (s.task p).prio ∧ (s.task p).prio < maxRtPrio) :
    Sound (enqueueRtEntity s p head) wrr
      (Function.update rt (s.task p).prio (addTo ((rt (s.task p).prio).erase p) p head)) := by
  have htask := (counts_dequeueRtStack s p).task p
  have hraw := (h.dequeueRtStack p hp).enqueueRtEntityRaw (p := p) (h.notMem_erase_rt hp)
    (by rwa [htask]) head
  rwa [htask, Function.update_self, Function.update_idem] at hraw

theorem Sound.enqueueTaskRt (h : Sound s wrr rt) (p : T) (flags : EnqueueFlags)
    (hp : ∀ i, p ∈ rt i → i = (s.task p).prio)
    (hprio : 0 ≤ (s.task p).prio ∧ (s.task p).prio < maxRtPrio) :
    Sound (enqueueTaskRt s p flags) wrr
      (Function.update rt (s.task p).prio
        (addTo ((rt (s.task p).prio).erase p) p flags.head)) := by
  have hreset : Quiet id s (resetTimeoutRt s p flags) := quiet_resetTimeoutRt s p flags
  have htask := hreset.task p
  rw [← htask] at hp hprio ⊢
  exact ((h.quiet hreset).enqueueRtEntity p flags.head hp hprio).setNrRunning _

theorem Sound.dequeueTaskRt (h : Sound s wrr rt) (cfg : Config) (p : T)
    (hp : ∀ i, p ∈ rt i → i = (s.task p).prio) :
    Sound (dequeueTaskRt cfg s p) wrr
      (Function.update rt (s.task p).prio ((rt (s.task p).prio).erase p)) := by
  have hupdate : Quiet id s (updateCurrRt cfg s) := quiet_updateCurrRt cfg s
  have htask := hupdate.task p
  rw [← htask] at hp ⊢
  exact ((h.quiet hupdate).dequeueRtStack p hp).setNrRunning _

theorem Sound.requeueTaskRt (h : Sound s wrr rt) (p : T) (head : Bool)
    (hp : ∀ i, p ∈ rt i → i = (s.task p).prio) :
    Sound (requeueTaskRt s p head) wrr
      (Function.update rt (s.task p).prio (requeued (rt (s.task p).prio) p head)) := by
  rw [Sched.requeueTaskRt]
  by_cases hi : p ∈ rt (s.task p).prio
  · rw [if_pos ((onRtRq_iff h).mpr ⟨_, hi⟩)]
    have hbit := (h.bitmap _).mpr (List.ne_nil_of_mem hi)
    have hne : requeued (rt (s.task p).prio) p head ≠ [] := by
      rw [requeued, if_pos hi]
      exact addTo_ne_nil _ _ _
    refine h.updateRt (fun _ => h.range _ (List.ne_nil_of_mem hi))
      (represents_rt_move h.represents hi head) rfl ?_ ?_ (fun j _ => rfl) id
    · rw [length_requeued]
      show s.queues.rtNrRunning = _
      omega
    · show s.queues.bitmap _ = true ↔ _
      simp [hbit, hne]
  · have hon : ¬onRtRq s p = true := by
      intro hon
      rcases (onRtRq_iff h).mp hon with ⟨i, hmem⟩
      exact hi (hp i hmem ▸ hmem)
    rwa [if_neg hon, requeued, if_neg hi, Function.update_eq_self]

end Rt

end Sched
