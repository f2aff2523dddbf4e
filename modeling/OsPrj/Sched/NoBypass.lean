import OsPrj.Sched.Invariant

/-!
# No bypass in the WRR queue

The operations on other tasks insert at the end of the WRR queue and remove, and so nobody gets in
front of a task that waits there (`Stepped.order`).  As `pick_next_task_wrr` returns the head of the
queue, a waiting task is picked before all who were behind it.

* `Waits` — `b` has been picked, or it waits with `a` behind it.
* `no_bypass` — **`a` is not picked before `b`**.
-/

namespace Sched

open Fifo ListHead

variable {T E : Type} [DecidableEq T] {K : Kernel T E} {queued : E → SchedClass → Finset T}
  {s s' : Sys T E} {wrr wrr' picks : List T} {a b : T}

omit [DecidableEq T] in
/-- The queue in memory is one list. -/
lemma WrrQueue.unique (h : WrrQueue s wrr) (h' : WrrQueue s wrr') : wrr = wrr' := by
  have hhead : ∀ l : List T, Node.head QueueHead.wrrQueue ∉
      l.map fun p => (Node.node (Entity.wrr p) : Node QueueHead (Entity T)) := by
    simp
  have hinj : Function.Injective
      fun p => (Node.node (Entity.wrr p) : Node QueueHead (Entity T)) := by
    intro p q hpq
    simpa using hpq
  exact List.map_injective_iff.mpr hinj (Visits.unique h h' (hhead wrr) (hhead wrr'))

instance (s : Sys T E) (wrr : List T) : Decidable (WrrQueue s wrr) :=
  inferInstanceAs (Decidable (Visits _ _ _ _))

/-- After `picks`, the task `b` has been picked, or it waits with `a` behind it; and `a` has not
been picked before `b`. -/
structure Waits (a b : T) (s : Sys T E) (wrr picks : List T) : Prop where
  picked : a ∉ inFront b picks
  waiting : b ∈ picks ∨ b ∈ wrr ∧ a ∉ inFront b wrr ∧ s.core.curr ≠ b

/-- **One operation that is not about `b`.** -/
lemma Waits.step (hne : a ≠ b) {op : Op T} (h : Waits a b s wrr picks)
    (hop : op.target ≠ some b) (hstep : Stepped K queued op s s' wrr wrr') :
    ∃ picks', s'.wrrPicks = s.wrrPicks ++ picks' ∧ Waits a b s' wrr' (picks ++ picks') := by
  rcases h.waiting with hpicked | ⟨hmem, hbehind, hcurr⟩
  · have hkeep : ∀ l, Waits a b s' wrr' (picks ++ l) := fun l =>
      ⟨inFront_append l picks hpicked ▸ h.picked, .inl (List.mem_append_left l hpicked)⟩
    rcases hstep.picks with hsame | ⟨p, -, hpick⟩
    · exact ⟨[], by rw [hsame, List.append_nil], hkeep []⟩
    · exact ⟨[p], hpick, hkeep [p]⟩
  rcases hstep.order b (Ne.symm hcurr) hop hmem with ⟨hmem', hsub⟩
  have hbehind' : a ∉ inFront b wrr' := fun hin => hbehind (hsub hin)
  have hcurr' : s'.core.curr ≠ b ∨ s'.wrrPicks = s.wrrPicks ++ [b] := by
    rcases eq_or_ne s'.core.curr b with rfl | hcurr'
    · exact .inr ((hstep.next.resolve_left (Ne.symm hcurr)).resolve_left (not_not.mpr hmem'))
    · exact .inl hcurr'
  rcases hcurr' with hcurr' | hpick
  · rcases hstep.picks with hsame | ⟨p, hhead, hpick⟩
    · refine ⟨[], by rw [hsame, List.append_nil], ?_, .inr ⟨hmem', hbehind', hcurr'⟩⟩
      rw [List.append_nil]
      exact h.picked
    · refine ⟨[p], hpick, notMem_inFront_concat h.picked ?_, .inr ⟨hmem', hbehind', hcurr'⟩⟩
      -- the head is in front of `b`, or `b` itself
      rintro rfl
      rcases List.head?_eq_some_iff.mp hhead with ⟨l, rfl⟩
      exact hbehind' (head_mem_inFront hne l)
  · exact ⟨[b], hpick, notMem_inFront_concat h.picked hne.symm, .inl (by simp)⟩

/-- **A run of such operations.** -/
lemma Waits.run (hK : Laws K queued) (hne : a ≠ b) (hinv : Inv K queued s wrr)
    (h : Waits a b s wrr [])
    (hrun : Run K s (fun s op => Allowed s op ∧ op.target ≠ some b) s') :
    ∃ wrr' picks, Inv K queued s' wrr' ∧ s'.wrrPicks = s.wrrPicks ++ picks ∧
      Waits a b s' wrr' picks := by
  induction hrun with
  | init => exact ⟨wrr, [], hinv, (List.append_nil _).symm, h⟩
  | step _ hop hstep ih =>
      rcases ih with ⟨wrr₁, picks, hinv₁, hpicks, hwaits⟩
      rcases hinv₁.step hK hop.1 with ⟨s₂, wrr₂, hok, hstepped⟩
      rw [hok] at hstep
      obtain rfl := Except.ok.inj hstep
      rcases hwaits.step hne hop.2 hstepped with ⟨picks', hpicks', hwaits'⟩
      refine ⟨wrr₂, picks ++ picks', hstepped.inv, ?_, hwaits'⟩
      rw [hpicks', hpicks, List.append_assoc]

/-- **No bypass**: from a reachable state in which `b` waits ahead of `a`, whatever is done as long
as `b` is not taken off the queue, `pick_next_task_wrr` does not return `a` before `b`. -/
theorem no_bypass (hK : Laws K queued) {boot : Boot T} (h : Reachable K boot s) {l₁ l₂ l₃ : List T}
    (hwrr : WrrQueue s (l₁ ++ b :: l₂ ++ a :: l₃)) (hcurr : s.core.curr ≠ b)
    (hrun : Run K s (fun s op => Allowed s op ∧ op.target ≠ some b) s') :
    ∃ picks, s'.wrrPicks = s.wrrPicks ++ picks ∧
      ∀ pre suf, picks = pre ++ a :: suf → b ∈ pre := by
  rcases h.inv hK with ⟨wrr, hinv⟩
  obtain rfl := hinv.layout.wrrQueue.unique hwrr
  have hnodup := hinv.layout.wrr_nodup
  have hne : a ≠ b := by
    rintro rfl
    simp [List.nodup_append] at hnodup
  have hwaits : Waits a b s (l₁ ++ b :: l₂ ++ a :: l₃) [] :=
    ⟨List.not_mem_nil, .inr ⟨by simp, notMem_inFront hnodup, hcurr⟩⟩
  rcases hwaits.run hK hne hinv hrun with ⟨wrr', picks, -, hpicks, hwaits'⟩
  refine ⟨picks, hpicks, ?_⟩
  rintro pre suf rfl
  exact mem_of_notMem_inFront hne hwaits'.picked

/-- Of three WRR tasks the second is picked before the third, although the third is taken off its
queue and put back. -/
theorem no_bypass_three :
    ∃ s s', runOps (fifoKernel smallConfig) Allowed (init (fifoKernel smallConfig) smallBoot)
        [.fork 2, .wakeUpNewTask 2, .schedule ⟨false, false, none⟩, .fork 3, .wakeUpNewTask 3,
          .fork 4, .wakeUpNewTask 4, .setscheduler 2 schedWrr 0 false,
          .setscheduler 3 schedWrr 0 false, .setscheduler 4 schedWrr 0 false] = some s ∧
      WrrQueue s [2, 3, 4] ∧ s.core.curr = 2 ∧
      runOps (fifoKernel smallConfig) (fun s op => Allowed s op ∧ op.target ≠ some 3) s
        [.schedulerTick, .setUserNice 4 5, .schedYield ⟨false, false, none⟩, .schedulerTick,
          .schedYield ⟨false, false, none⟩] = some s' ∧
      ∃ picks, s'.wrrPicks = s.wrrPicks ++ picks ∧
        ∀ pre suf, picks = pre ++ 4 :: suf → 3 ∈ pre := by
  have hrun : ∃ s, runOps (fifoKernel smallConfig) Allowed
        (init (fifoKernel smallConfig) smallBoot)
        [.fork 2, .wakeUpNewTask 2, .schedule ⟨false, false, none⟩, .fork 3, .wakeUpNewTask 3,
          .fork 4, .wakeUpNewTask 4, .setscheduler 2 schedWrr 0 false,
          .setscheduler 3 schedWrr 0 false, .setscheduler 4 schedWrr 0 false] = some s ∧
      WrrQueue s [2, 3, 4] ∧ s.core.curr = 2 ∧
        (runOps (fifoKernel smallConfig) (fun s op => Allowed s op ∧ op.target ≠ some 3) s
          [.schedulerTick, .setUserNice 4 5, .schedYield ⟨false, false, none⟩, .schedulerTick,
            .schedYield ⟨false, false, none⟩]).isSome = true :=
    exists_of_any (by decide +kernel)
  rcases hrun with ⟨s, hs, hwrr, hcurr, hsome⟩
  rcases Option.isSome_iff_exists.mp hsome with ⟨s', hs'⟩
  refine ⟨s, s', hs, hwrr, hcurr, hs', ?_⟩
  have hreach : Reachable (fifoKernel smallConfig) smallBoot s := Run.runOps _ .init hs
  have hqueue : WrrQueue s ([2] ++ 3 :: [] ++ 4 :: []) := hwrr
  exact no_bypass (fifoKernel_laws smallConfig) hreach hqueue (by simp [hcurr])
    (Run.runOps _ .init hs')

end Sched
