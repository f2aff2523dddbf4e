import OsPrj.Wait.Queue

/-!
# Completions in every order of steps

The tasks that use a completion take their steps in any order: they wait, with or without a
timeout, their timers and signals wake them, others call `complete` and `complete_all`.

* `completion_invariant` — in every reachable state **nobody has got through without a completion,
  and none is lost**: `done` is what is left of the completions, modulo `2 ^ 32`, and at least
  `done` of the waiters are awake, or all of them.
* `resumes_serve` — when the waiters that are awake go on, in any order and whatever their timers
  and signals say, as many of them get through as there are completions for.
-/

namespace Wait

open Sched (taskRunning taskInterruptible taskUninterruptible taskNormal)

variable {T : Type} [DecidableEq T]

/-- What is kept in every order of steps. -/
structure Inv (s : St T) : Prop where
  conserved : Conserved s
  queued : Queued s
  served : Served s

omit [DecidableEq T] in
lemma inv_init : Inv (init : St T) where
  conserved := ⟨Nat.zero_le _, rfl⟩
  queued :=
    { nodup := List.nodup_nil
      exclusive := fun e he => absurd he (List.not_mem_nil)
      waiting := fun t => by simp [init]
      state := fun t n st ht => absurd ht (by simp [init]) }
  served := served_of_done_eq_zero rfl

section

variable {s : St T}

lemma Inv.doWaitForCommon (h : Inv s) {t : T} {timeout : ℤ} {state : ℕ} {signal : Signal}
    (ht : ∀ n st, s.pc t ≠ .waiting n st) (hst : state &&& taskNormal ≠ 0) :
    Queued (doWaitForCommon s t timeout state signal) ∧
      Served (doWaitForCommon s t timeout state signal) := by
  rw [Wait.doWaitForCommon]
  split_ifs with hzero
  · rw [loopBody]
    split_ifs
    · -- it has put itself on the queue and leaves it again
      set s₁ : St T := { s with x := ⟨s.x.done, s.x.wait ++ [⟨t, true⟩]⟩ } with hs₁
      refine ⟨h.queued.leave ?_ (leaveLoop_state s₁ t _) (leaveLoop_pc s₁ t _), ?_⟩
      · rw [leaveLoop_wait, hs₁, List.filter_append]
        simp
      · refine served_of_done_eq_zero ?_
        rw [leaveLoop]
        simp only [hs₁, hzero, if_true]
    · exact ⟨h.queued.sleep hst (.inr ⟨ht, rfl⟩) rfl rfl, served_of_done_eq_zero hzero⟩
  · refine ⟨h.queued.out ht rfl rfl ⟨_, rfl⟩, h.served.mono ?_ rfl fun _ => id⟩
    change (s.x.done - 1).toNat ≤ _
    rw [toNat_sub_one hzero]
    omega

lemma Inv.resumeWait (h : Inv s) {t : T} {n timeout : ℤ} {state : ℕ} {signal : Signal}
    (hpc : s.pc t = .waiting n state) (hrun : s.state t = taskRunning) :
    Queued (resumeWait s t timeout state signal) ∧
      Served (resumeWait s t timeout state signal) := by
  have hmem : ∃ e ∈ s.x.wait, e.task = t := (h.queued.waiting t).mpr ⟨n, state, hpc⟩
  have hleave : ∀ m, Queued (leaveLoop s t m) ∧ Served (leaveLoop s t m) := by
    intro m
    exact ⟨h.queued.leave (leaveLoop_wait s t m) (leaveLoop_state s t m) (leaveLoop_pc s t m),
      h.served.leaveLoop h.queued hmem hrun m⟩
  rw [Wait.resumeWait]
  split_ifs with hagain
  · rw [loopBody]
    split_ifs
    · exact hleave _
    · exact ⟨h.queued.sleep (h.queued.state t n state hpc).1 (.inl ⟨⟨n, state, hpc⟩, rfl⟩) rfl rfl,
        served_of_done_eq_zero hagain.1⟩
  · exact hleave _

lemma Inv.completeAll (h : Inv s) : Queued (completeAll s) ∧ Served (completeAll s) := by
  have hpc : (Wait.completeAll s).pc = s.pc := by rw [Wait.completeAll]
  have hwoken : (Wait.completeAll s).state
      = wakeUpCommon (defaultWakeFunction taskNormal) s.x.wait 0 s.state := by
    rw [Wait.completeAll]
  rcases h.queued.wakeUpCommon le_rfl (completeAll_wait s) hwoken with ⟨hstate, hawake⟩
  refine ⟨h.queued.wake (completeAll_wait s) hpc hstate, ?_⟩
  rcases hawake with hall | ⟨hne, -⟩
  · rw [Served, hall, completeAll_wait]
    exact Nat.min_le_right _ _
  · exact absurd rfl hne

/-- What one operation preserves. -/
lemma Inv.step (h : Inv s) {op : Op T} (hop : Allowed s op) : Inv (step s op) := by
  suffices hkeeps : Queued (Wait.step s op) ∧ Served (Wait.step s op) from
    ⟨h.conserved.step op, hkeeps.1, hkeeps.2⟩
  cases op with
  | wait t timeout state signal => exact h.doWaitForCommon hop.1 hop.2.2
  | resume t timeout signal =>
      rcases hop with ⟨⟨n, state, hpc⟩, hrun, -⟩
      rw [Wait.step, hpc]
      exact h.resumeWait hpc hrun
  | wakeUp t =>
      have hstate : ∀ p, (Wait.step s (.wakeUp t)).state p = taskRunning ∨
          (Wait.step s (.wakeUp t)).state p = s.state p := by
        intro p
        rcases eq_or_ne p t with rfl | hp
        · exact .inl (Function.update_self ..)
        · exact .inr (Function.update_of_ne hp ..)
      refine ⟨h.queued.wake rfl rfl hstate, h.served.mono le_rfl rfl fun p hp => ?_⟩
      rcases hstate p with hrun | hsame
      · exact hrun
      · rw [hsame, hp]
  | complete =>
      have hwait : (complete s).x.wait = s.x.wait := rfl
      rcases h.queued.wakeUpCommon zero_le_one hwait rfl with ⟨hstate, hawake⟩
      refine ⟨h.queued.wake rfl rfl hstate, ?_⟩
      have hdone : (s.x.done + 1).toNat ≤ s.x.done.toNat + 1 := by
        rw [BitVec.toNat_add]
        exact Nat.mod_le _ _
      have hserved := h.served
      rw [Served] at hserved ⊢
      change min (s.x.done + 1).toNat s.x.wait.length ≤ awake (complete s)
      omega
  | completeAll =>
      rw [Wait.step]
      exact h.completeAll
  | tryWait =>
      rw [Wait.step, tryWaitForCompletion]
      split_ifs with hzero
      · exact ⟨h.queued, h.served⟩
      · refine ⟨h.queued.wake rfl rfl fun _ => .inr rfl, h.served.mono ?_ rfl fun _ => id⟩
        change (s.x.done - 1).toNat ≤ _
        rw [toNat_sub_one hzero]
        omega

lemma Reachable.inv (h : Reachable s) : Inv s := by
  induction h with
  | init => exact inv_init
  | step _ hop ih => exact ih.step hop

/-- **Nobody has got through without a completion, and none is lost**: `done` is what is left of the
completions, modulo `2 ^ 32`, and at least `done` of the waiters are awake, or all of them. -/
theorem completion_invariant (h : Reachable s) : Conserved s ∧ Queued s ∧ Served s :=
  ⟨h.inv.conserved, h.inv.queued, h.inv.served⟩

/-- **What `completion_done` says**: whether a `try_wait_for_completion` in its place would get
through, and then nobody waits or one of the waiters is awake. -/
theorem completionDone_spec (h : Reachable s) :
    completionDone s = (tryWaitForCompletion s).1 ∧
      (completionDone s = true → s.x.wait = [] ∨ 0 < awake s) := by
  have hdone : completionDone s = true ↔ s.x.done ≠ 0 := bne_iff_ne
  constructor
  · rw [tryWaitForCompletion, completionDone]
    split_ifs with hzero
    · rw [hzero]
      rfl
    · exact bne_iff_ne.mpr hzero
  · intro hyes
    have hserved := h.inv.served
    rw [Served] at hserved
    have hpos : s.x.done.toNat ≠ 0 := fun h0 => hdone.mp hyes (BitVec.eq_of_toNat_eq h0)
    rcases Nat.eq_zero_or_pos s.x.wait.length with hnone | hsome
    · exact .inl (List.length_eq_zero_iff.mp hnone)
    · exact .inr (by omega)

omit [DecidableEq T] in
/-- The states of `wait_for_completion` and of its interruptible and killable variants are ones that
a completion wakes. -/
lemma allowed_wait {t : T} {timeout : ℤ} {state : ℕ} {signal : Signal}
    (ht : ∀ n st, s.pc t ≠ .waiting n st) (htimeout : 0 ≤ timeout)
    (hstate : state ∈ [taskUninterruptible, taskInterruptible, taskKillable]) :
    Allowed s (.wait t timeout state signal) := by
  have hnormal : ∀ st ∈ [taskUninterruptible, taskInterruptible, taskKillable],
      st &&& taskNormal ≠ 0 := by decide
  exact ⟨ht, htimeout, hnormal state hstate⟩

/-- Two tasks wait, and a completion has come. -/
def twoWaiters : St ℕ :=
  Wait.step (Wait.step (Wait.step init (.wait 0 100 taskUninterruptible .none))
    (.wait 1 100 taskInterruptible .none)) .complete

lemma reachable_twoWaiters : Reachable twoWaiters := by
  refine .step (.step (.step .init (allowed_wait ?_ (by decide) (by decide)))
    (allowed_wait ?_ (by decide) (by decide))) trivial
  · intro n st
    simp [init]
  · intro n st
    simp [Wait.step, Wait.doWaitForCommon, loopBody, signalPendingState, init]

theorem completion_invariant_two :
    Conserved twoWaiters ∧ Queued twoWaiters ∧ Served twoWaiters :=
  completion_invariant reachable_twoWaiters

/-! ## The waiters that are awake go on -/

/-- The waiters `ts` come back from `schedule_timeout`, one after the other. -/
inductive Resumes : St T → List T → St T → Prop where
  | nil {s : St T} : Resumes s [] s
  | cons {s s' : St T} {t : T} {timeout : ℤ} {signal : Signal} {ts : List T} :
      Allowed s (.resume t timeout signal) →
      Resumes (Wait.step s (.resume t timeout signal)) ts s' →
      Resumes s (t :: ts) s'

/-- What a waiter does that comes back. -/
lemma Inv.resume (h : Inv s) {t : T} {timeout : ℤ} {signal : Signal}
    (hop : Allowed s (.resume t timeout signal)) {s' : St T}
    (hs' : s' = Wait.step s (.resume t timeout signal)) :
    awake s = awake s' + 1 ∧
      s.taken + min s.x.done.toNat s.x.wait.length
        = s'.taken + min s'.x.done.toNat s'.x.wait.length := by
  rcases hop with ⟨⟨n, state, hpc⟩, hrun, -⟩
  have hmem : ∃ e ∈ s.x.wait, e.task = t := (h.queued.waiting t).mpr ⟨n, state, hpc⟩
  have hleave : ∀ m, s' = leaveLoop s t m → awake s = awake s' + 1 ∧
      s.taken + min s.x.done.toNat s.x.wait.length
        = s'.taken + min s'.x.done.toNat s'.x.wait.length := by
    rintro m rfl
    rcases awake_leave h.queued hmem hrun (leaveLoop_wait s t m) (leaveLoop_state s t m) with
      ⟨hlength, hawake⟩
    refine ⟨hawake, ?_⟩
    rw [leaveLoop_wait] at hlength
    rw [leaveLoop]
    by_cases hzero : s.x.done = 0
    · simp [hzero]
    · have hpos : s.x.done.toNat ≠ 0 := fun h0 => hzero (BitVec.eq_of_toNat_eq h0)
      simp only [hzero, if_false, take, toNat_sub_one hzero]
      omega
  rw [Wait.step, hpc] at hs'
  change s' = Wait.resumeWait s t timeout state signal at hs'
  rw [Wait.resumeWait] at hs'
  split_ifs at hs' with hagain
  · rw [loopBody] at hs'
    split_ifs at hs' with hsignal
    · exact hleave _ hs'
    · -- it sleeps again, at its place in the queue
      subst hs'
      have hne : state ≠ taskRunning := by
        rintro rfl
        exact (h.queued.state t n taskRunning hpc).1 (Nat.zero_and _)
      exact ⟨awake_sleep h.queued hmem hrun rfl rfl hne, rfl⟩
  · exact hleave _ hs'

/-- The order in which they go on does not matter, nor does it what their timers and signals say. -/
lemma Inv.resumes {ts : List T} {s' : St T} (h : Inv s) (hrun : Resumes s ts s') :
    Inv s' ∧ awake s = awake s' + ts.length ∧
      s.taken + min s.x.done.toNat s.x.wait.length
        = s'.taken + min s'.x.done.toNat s'.x.wait.length := by
  induction hrun with
  | nil => exact ⟨h, rfl, rfl⟩
  | cons hop _ ih =>
      rcases h.resume hop rfl with ⟨hawake, htaken⟩
      rcases ih (h.step hop) with ⟨hinv, hrest, hmin⟩
      refine ⟨hinv, ?_, htaken.trans hmin⟩
      rw [List.length_cons]
      omega

/-- They can all go on. -/
lemma Inv.exists_resumes (h : Inv s) : ∃ ts s', Resumes s ts s' ∧ awake s' = 0 := by
  induction hn : awake s generalizing s with
  | zero => exact ⟨[], s, .nil, hn⟩
  | succ n ih =>
      have hpos : 0 < s.x.wait.countP (Awake s.state) := by
        rw [← awake, hn]
        exact n.succ_pos
      rcases List.countP_pos_iff.mp hpos with ⟨e, he, hrun⟩
      have hop : Allowed s (.resume e.task 0 .none) :=
        ⟨(h.queued.waiting e.task).mp ⟨e, he, rfl⟩, of_decide_eq_true hrun, le_rfl⟩
      rcases h.resume hop rfl with ⟨hawake, -⟩
      rcases ih (h.step hop) (by omega) with ⟨ts, s', hts, hquiet⟩
      exact ⟨e.task :: ts, s', .cons hop hts, hquiet⟩

/-- **The waiters that are awake get through, as far as there are completions.**  They can go on
until none of them is awake, and in whatever order they do, each of them once, as many take a
completion as there are completions and waiters; then there is no completion left, or no waiter. -/
theorem resumes_serve (h : Reachable s) :
    (∃ ts s', Resumes s ts s' ∧ awake s' = 0) ∧
      ∀ ts s', Resumes s ts s' → awake s' = 0 →
        ts.length = awake s ∧ s'.taken = s.taken + min s.x.done.toNat s.x.wait.length ∧
          (s'.x.done = 0 ∨ s'.x.wait = []) := by
  refine ⟨h.inv.exists_resumes, ?_⟩
  intro ts s' hrun hquiet
  rcases h.inv.resumes hrun with ⟨hinv, hawake, htaken⟩
  have hserved := hinv.served
  rw [Served, hquiet] at hserved
  refine ⟨by omega, by omega, ?_⟩
  rcases Nat.min_eq_zero_iff.mp (Nat.le_zero.mp hserved) with hdone | hwait
  · exact .inl (BitVec.eq_of_toNat_eq hdone)
  · exact .inr (List.length_eq_zero_iff.mp hwait)

theorem resumes_serve_two :
    (∃ ts s', Resumes twoWaiters ts s' ∧ awake s' = 0) ∧
      ∀ ts s', Resumes twoWaiters ts s' → awake s' = 0 →
        ts.length = awake twoWaiters ∧
          s'.taken = twoWaiters.taken + min twoWaiters.x.done.toNat twoWaiters.x.wait.length ∧
          (s'.x.done = 0 ∨ s'.x.wait = []) :=
  resumes_serve reachable_twoWaiters

end

end Wait
