import OsPrj.Wait.WakeUp

/-!
# The queue of a completion

What is kept of a completion, in three parts: `Conserved` counts the completions, `Queued` is the
shape of the queue, and `Served` says that enough waiters are awake.  For each of them there are
the rules of the steps a task takes: it leaves the queue, goes to sleep, or wakes others.
-/

namespace Wait

open Sched (taskRunning taskNormal)

variable {T : Type} [DecidableEq T]

/-- The waiter has been woken. -/
def Awake (state : T → ℕ) (e : WaitQueueEntry T) : Bool := decide (state e.task = taskRunning)

/-- The waiters that have been woken. -/
def awake (s : St T) : ℕ := s.x.wait.countP (Awake s.state)

/-- What `complete` and `complete_all` have added to `done`. -/
def added (s : St T) : ℕ := s.completed + 0x7fffffff * s.completedAll

/-- `done` is what is left of the completions. -/
structure Conserved (s : St T) : Prop where
  taken_le : s.taken ≤ added s
  done : s.x.done.toNat = (added s - s.taken) % 2 ^ 32

/-- The queue has one exclusive entry for each waiter.  A waiter is awake or in the state it waits
in. -/
structure Queued (s : St T) : Prop where
  nodup : (s.x.wait.map WaitQueueEntry.task).Nodup
  exclusive : ∀ e ∈ s.x.wait, e.exclusive = true
  waiting : ∀ t, (∃ e ∈ s.x.wait, e.task = t) ↔ ∃ n st, s.pc t = .waiting n st
  state : ∀ t n st, s.pc t = .waiting n st →
    st &&& taskNormal ≠ 0 ∧ (s.state t = taskRunning ∨ s.state t = st)

/-- As many waiters are awake as there are completions for. -/
def Served (s : St T) : Prop := min s.x.done.toNat s.x.wait.length ≤ awake s

omit [DecidableEq T] in
lemma served_of_done_eq_zero {s : St T} (hdone : s.x.done = 0) : Served s := by
  simp [Served, hdone]

/-! ## The completions -/

lemma completeAll_x (s : St T) :
    (completeAll s).x = ⟨s.x.done + 0x7fffffff, s.x.wait⟩ := by rw [completeAll]

lemma completeAll_wait (s : St T) : (completeAll s).x.wait = s.x.wait := by
  -- not by `rfl`, which compares the two values of `done`
  have hmk : ∀ done wait, (Completion.mk done wait : Completion T).wait = wait := fun _ _ => rfl
  rw [completeAll_x, hmk]

lemma completeAll_taken (s : St T) : (completeAll s).taken = s.taken := by rw [completeAll]

lemma completeAll_completed (s : St T) : (completeAll s).completed = s.completed := by
  rw [completeAll]

lemma added_completeAll (s : St T) : added (completeAll s) = added s + 0x7fffffff := by
  have hall : (completeAll s).completedAll = s.completedAll + 1 := rfl
  rw [added, added, completeAll_completed, hall]
  omega

lemma toNat_sub_one {v : BitVec 32} (hne : v ≠ 0) : (v - 1).toNat = v.toNat - 1 := by
  have hpos : v.toNat ≠ 0 := fun hzero => hne (BitVec.eq_of_toNat_eq hzero)
  rw [BitVec.toNat_sub_of_le]
  · rfl
  · rw [BitVec.le_def]
    exact Nat.one_le_iff_ne_zero.mpr hpos

omit [DecidableEq T] in
/-- A completion is taken. -/
lemma Conserved.take {s s' : St T} (h : Conserved s) (hne : s.x.done ≠ 0)
    (hdone : s'.x.done = s.x.done - 1) (htaken : s'.taken = s.taken + 1)
    (hadded : added s' = added s) : Conserved s' := by
  have hpos : s.x.done.toNat ≠ 0 := fun hzero => hne (BitVec.eq_of_toNat_eq hzero)
  have hleft := h.done
  constructor
  · rw [htaken, hadded]
    omega
  · rw [hdone, htaken, hadded, toNat_sub_one hne]
    omega

omit [DecidableEq T] in
/-- Completions are added. -/
lemma Conserved.add {s s' : St T} (h : Conserved s) (n : ℕ)
    (hdone : s'.x.done = s.x.done + BitVec.ofNat 32 n) (htaken : s'.taken = s.taken)
    (hadded : added s' = added s + n) : Conserved s' := by
  have hle := h.taken_le
  have hleft := h.done
  constructor
  · omega
  · rw [hdone, htaken, hadded, BitVec.toNat_add, BitVec.toNat_ofNat]
    omega

omit [DecidableEq T] in
lemma Conserved.congr {s s' : St T} (h : Conserved s) (hdone : s'.x.done = s.x.done)
    (htaken : s'.taken = s.taken) (hadded : added s' = added s) : Conserved s' where
  taken_le := by rw [htaken, hadded]; exact h.taken_le
  done := by rw [hdone, htaken, hadded]; exact h.done

lemma Conserved.leaveLoop {s : St T} (h : Conserved s) (t : T) (timeout : ℤ) :
    Conserved (leaveLoop s t timeout) := by
  rw [Wait.leaveLoop]
  by_cases hzero : s.x.done = 0
  · simp only [hzero, if_true]
    exact h.congr hzero.symm rfl rfl
  · simp only [hzero, if_false]
    exact h.take hzero rfl rfl rfl

lemma Conserved.loopBody {s : St T} (h : Conserved s) (t : T) (timeout : ℤ) (state : ℕ)
    (signal : Signal) : Conserved (loopBody s t timeout state signal) := by
  rw [Wait.loopBody]
  split_ifs
  · exact h.leaveLoop t _
  · exact h.congr rfl rfl rfl

lemma Conserved.step {s : St T} (h : Conserved s) (op : Op T) : Conserved (step s op) := by
  cases op with
  | wait t timeout state signal =>
      rw [Wait.step, doWaitForCommon]
      split_ifs with hzero
      · refine Conserved.loopBody ?_ t timeout state signal
        exact h.congr rfl rfl rfl
      · exact h.take hzero rfl rfl rfl
  | resume t timeout signal =>
      rw [Wait.step]
      cases s.pc t with
      | out ret => exact h
      | waiting n state =>
          change Conserved (resumeWait s t timeout state signal)
          rw [resumeWait]
          split_ifs
          · exact h.loopBody t timeout state signal
          · exact h.leaveLoop t timeout
  | wakeUp t => exact h.congr rfl rfl rfl
  | complete =>
      refine h.add 1 rfl rfl ?_
      simp only [Wait.step, complete, added]
      omega
  | completeAll =>
      exact h.add 0x7fffffff rfl (completeAll_taken s) (added_completeAll s)
  | tryWait =>
      rw [Wait.step, tryWaitForCompletion]
      split_ifs with hzero
      · exact h
      · exact h.take hzero rfl rfl rfl

/-! ## The queue -/

lemma leaveLoop_wait (s : St T) (t : T) (timeout : ℤ) :
    (leaveLoop s t timeout).x.wait = s.x.wait.filter fun e => e.task ≠ t := by
  rw [leaveLoop]
  by_cases hzero : s.x.done = 0
  · simp only [hzero, if_true]
  · simp only [hzero, if_false, take]

lemma leaveLoop_state (s : St T) (t : T) (timeout : ℤ) :
    (leaveLoop s t timeout).state = s.state := by
  rw [leaveLoop]
  by_cases hzero : s.x.done = 0
  · simp only [hzero, if_true]
  · simp only [hzero, if_false, take]

lemma leaveLoop_pc (s : St T) (t : T) (timeout : ℤ) :
    ∃ ret, (leaveLoop s t timeout).pc = Function.update s.pc t (.out ret) := by
  rw [leaveLoop]
  by_cases hzero : s.x.done = 0
  · simp only [hzero, if_true]
    exact ⟨_, rfl⟩
  · simp only [hzero, if_false, take]
    exact ⟨_, rfl⟩

/-- The entry of `t` in the queue, and what the queue is without it. -/
lemma exists_split {q : List (WaitQueueEntry T)} {t : T}
    (hnodup : (q.map WaitQueueEntry.task).Nodup)
    (ht : ∃ e ∈ q, e.task = t) : ∃ l₁ e l₂, q = l₁ ++ e :: l₂ ∧ e.task = t ∧
      (q.filter fun a => a.task ≠ t) = l₁ ++ l₂ := by
  rcases ht with ⟨e, he, rfl⟩
  rcases List.append_of_mem he with ⟨l₁, l₂, rfl⟩
  refine ⟨l₁, e, l₂, rfl, rfl, ?_⟩
  rw [List.map_append, List.map_cons, List.nodup_middle, List.nodup_cons] at hnodup
  have hne : ∀ a ∈ l₁ ++ l₂, a.task ≠ e.task := fun a ha heq =>
    hnodup.1 (by rw [← List.map_append, ← heq]; exact List.mem_map_of_mem ha)
  rw [List.filter_append, List.filter_cons_of_neg (by simp), ← List.filter_append,
    List.filter_eq_self.mpr fun a ha => by simpa using hne a ha]

namespace Queued

variable {s s' : St T}

/-- `t` is taken off the queue. -/
lemma leave (h : Queued s) {t : T} (hwait : s'.x.wait = s.x.wait.filter fun e => e.task ≠ t)
    (hstate : s'.state = s.state) (hpc : ∃ ret, s'.pc = Function.update s.pc t (.out ret)) :
    Queued s' where
  nodup := by
    rw [hwait]
    exact h.nodup.sublist (List.filter_sublist.map _)
  exclusive := fun e he => h.exclusive e (List.mem_of_mem_filter (hwait ▸ he))
  waiting := fun p => by
    rcases hpc with ⟨ret, hpc⟩
    rw [hwait, hpc]
    rcases eq_or_ne p t with rfl | hp
    · simp
    · rw [Function.update_of_ne hp, ← h.waiting p]
      refine exists_congr fun e => and_congr_left fun he => ?_
      rw [List.mem_filter, he]
      simp [hp]
  state := fun p n st hp => by
    rcases hpc with ⟨ret, hpc⟩
    rw [hpc] at hp
    rcases eq_or_ne p t with rfl | hne
    · rw [Function.update_self] at hp
      exact absurd hp (by simp)
    · rw [Function.update_of_ne hne] at hp
      rw [hstate]
      exact h.state p n st hp

/-- A task that is not in the queue returns. -/
lemma out (h : Queued s) {t : T} (ht : ∀ n st, s.pc t ≠ .waiting n st)
    (hwait : s'.x.wait = s.x.wait) (hstate : s'.state = s.state)
    (hpc : ∃ ret, s'.pc = Function.update s.pc t (.out ret)) : Queued s' := by
  refine h.leave (t := t) ?_ hstate hpc
  rw [hwait, eq_comm, List.filter_eq_self]
  intro e he
  have hne : e.task ≠ t := by
    intro heq
    rcases (h.waiting t).mp ⟨e, he, heq⟩ with ⟨n, st, hpc⟩
    exact ht n st hpc
  simpa using hne

/-- A waiter goes to sleep; it has the last entry of the queue if it has just come. -/
lemma sleep (h : Queued s) {t : T} {n : ℤ} {st : ℕ} (hst : st &&& taskNormal ≠ 0)
    (hwait : (∃ n st, s.pc t = .waiting n st) ∧ s'.x.wait = s.x.wait ∨
      (∀ n st, s.pc t ≠ .waiting n st) ∧ s'.x.wait = s.x.wait ++ [⟨t, true⟩])
    (hstate : s'.state = Function.update s.state t st)
    (hpc : s'.pc = Function.update s.pc t (.waiting n st)) : Queued s' where
  nodup := by
    rcases hwait with ⟨-, hwait⟩ | ⟨ht, hwait⟩
    · rw [hwait]
      exact h.nodup
    · rw [hwait, List.map_append, List.map_singleton, List.nodup_append]
      refine ⟨h.nodup, List.nodup_singleton _, ?_⟩
      intro a ha b hb heq
      rcases List.mem_map.mp ha with ⟨e, he, rfl⟩
      rcases (h.waiting e.task).mp ⟨e, he, rfl⟩ with ⟨n, st, hpc⟩
      have htask : e.task = t := heq.trans (List.mem_singleton.mp hb)
      rw [htask] at hpc
      exact ht n st hpc
  exclusive := fun e he => by
    rcases hwait with ⟨-, hwait⟩ | ⟨-, hwait⟩
    · exact h.exclusive e (hwait ▸ he)
    · rw [hwait, List.mem_append, List.mem_singleton] at he
      rcases he with he | rfl
      · exact h.exclusive e he
      · rfl
  waiting := fun p => by
    rw [hpc]
    rcases eq_or_ne p t with rfl | hp
    · rw [Function.update_self]
      refine ⟨fun _ => ⟨n, st, rfl⟩, fun _ => ?_⟩
      rcases hwait with ⟨ht, hwait⟩ | ⟨-, hwait⟩
      · rw [hwait]
        exact (h.waiting p).mpr ht
      · exact ⟨⟨p, true⟩, by simp [hwait], rfl⟩
    · rw [Function.update_of_ne hp, ← h.waiting p]
      rcases hwait with ⟨-, hwait⟩ | ⟨-, hwait⟩
      · rw [hwait]
      · rw [hwait]
        simp [or_and_right, exists_or, hp.symm]
  state := fun p m st' hp => by
    rw [hpc] at hp
    rcases eq_or_ne p t with rfl | hne
    · rw [Function.update_self] at hp
      obtain ⟨rfl, rfl⟩ := Pc.waiting.inj hp
      rw [hstate, Function.update_self]
      exact ⟨hst, .inr rfl⟩
    · rw [Function.update_of_ne hne] at hp
      rw [hstate, Function.update_of_ne hne]
      exact h.state p m st' hp

omit [DecidableEq T] in
/-- Tasks are woken. -/
lemma wake (h : Queued s) (hwait : s'.x.wait = s.x.wait) (hpc : s'.pc = s.pc)
    (hstate : ∀ t, s'.state t = taskRunning ∨ s'.state t = s.state t) : Queued s' where
  nodup := by
    rw [hwait]
    exact h.nodup
  exclusive := by
    rw [hwait]
    exact h.exclusive
  waiting := by
    rw [hwait, hpc]
    exact h.waiting
  state := fun t n st ht => by
    rw [hpc] at ht
    rcases h.state t n st ht with ⟨hst, hold⟩
    refine ⟨hst, ?_⟩
    rcases hstate t with hrun | hsame
    · exact .inl hrun
    · rw [hsame]
      exact hold

end Queued

/-! ## Who is awake -/

/-- A waiter that is awake leaves the queue. -/
lemma awake_leave {s s' : St T} (h : Queued s) {t : T} (ht : ∃ e ∈ s.x.wait, e.task = t)
    (hrun : s.state t = taskRunning) (hwait : s'.x.wait = s.x.wait.filter fun e => e.task ≠ t)
    (hstate : s'.state = s.state) :
    s.x.wait.length = s'.x.wait.length + 1 ∧ awake s = awake s' + 1 := by
  rcases exists_split h.nodup ht with ⟨l₁, e, l₂, hq, he, hfilter⟩
  have hawake : Awake s.state e = true := by
    rw [Awake, he]
    exact decide_eq_true hrun
  rw [awake, awake, hwait, hfilter, hstate, hq]
  refine ⟨?_, ?_⟩
  · rw [List.length_append, List.length_append, List.length_cons]
    omega
  · rw [List.countP_append, List.countP_append, List.countP_cons_of_pos hawake]
    omega

/-- A waiter that is awake goes to sleep, at its place in the queue. -/
lemma awake_sleep {s s' : St T} (h : Queued s) {t : T} {st : ℕ} (ht : ∃ e ∈ s.x.wait, e.task = t)
    (hrun : s.state t = taskRunning) (hwait : s'.x.wait = s.x.wait)
    (hstate : s'.state = Function.update s.state t st) (hst : st ≠ taskRunning) :
    awake s = awake s' + 1 := by
  rcases exists_split h.nodup ht with ⟨l₁, e, l₂, hq, he, hfilter⟩
  have hrest : ∀ a ∈ l₁ ++ l₂, Awake s'.state a = Awake s.state a := by
    intro a ha
    rw [← hfilter] at ha
    have hne : a.task ≠ t := by simpa using (List.mem_filter.mp ha).2
    rw [Awake, Awake, hstate, Function.update_of_ne hne]
  have hcongr : (l₁ ++ l₂).countP (Awake s'.state) = (l₁ ++ l₂).countP (Awake s.state) :=
    List.countP_congr fun a ha => by rw [hrest a ha]
  have hbefore : Awake s.state e = true := by
    rw [Awake, he]
    exact decide_eq_true hrun
  have hafter : ¬Awake s'.state e = true := by
    rw [Awake, hstate, he, Function.update_self]
    simpa using hst
  rw [List.countP_append, List.countP_append] at hcongr
  rw [awake, awake, hwait, hq, List.countP_append, List.countP_append,
    List.countP_cons_of_pos hbefore, List.countP_cons_of_neg hafter]
  omega

/-- It takes a completion, if there is one. -/
lemma Served.leaveLoop {s : St T} (hq : Queued s) (h : Served s) {t : T}
    (ht : ∃ e ∈ s.x.wait, e.task = t) (hrun : s.state t = taskRunning) (timeout : ℤ) :
    Served (leaveLoop s t timeout) := by
  rcases awake_leave hq ht hrun (leaveLoop_wait s t timeout) (leaveLoop_state s t timeout) with
    ⟨hlength, hawake⟩
  rw [Served] at h ⊢
  by_cases hzero : s.x.done = 0
  · have hdone : (Wait.leaveLoop s t timeout).x.done = 0 := by
      rw [Wait.leaveLoop]
      simp only [hzero, if_true]
    rw [hdone]
    exact (Nat.min_le_left _ _).trans (Nat.zero_le _)
  · have hdone : (Wait.leaveLoop s t timeout).x.done = s.x.done - 1 := by
      rw [Wait.leaveLoop]
      simp only [hzero, if_false, take]
    have hpos : s.x.done.toNat ≠ 0 := fun h0 => hzero (BitVec.eq_of_toNat_eq h0)
    rw [hdone, toNat_sub_one hzero]
    omega

omit [DecidableEq T] in
/-- Others come or go, or a completion is taken. -/
lemma Served.mono {s s' : St T} (h : Served s) (hdone : s'.x.done.toNat ≤ s.x.done.toNat)
    (hwait : s'.x.wait = s.x.wait)
    (hstate : ∀ t, s.state t = taskRunning → s'.state t = taskRunning) :
    Served s' := by
  have hawake : awake s ≤ awake s' := by
    rw [awake, awake, hwait]
    refine List.countP_mono_left fun e _ he => ?_
    exact decide_eq_true (hstate _ (of_decide_eq_true he))
  rw [Served] at h ⊢
  rw [hwait]
  omega

omit [DecidableEq T] in
/-- The waiters that can be woken are those that are asleep. -/
lemma Queued.wakeable {s : St T} (h : Queued s) {e : WaitQueueEntry T} (he : e ∈ s.x.wait) :
    Wakeable s.state taskNormal e = !Awake s.state e := by
  rcases (h.waiting e.task).mp ⟨e, he, rfl⟩ with ⟨n, st, hpc⟩
  rcases h.state e.task n st hpc with ⟨hst, hrun | hsleep⟩
  · rw [Wakeable, Awake, hrun]
    rfl
  · have hne : st ≠ taskRunning := by
      rintro rfl
      exact hst (Nat.zero_and _)
    rw [Wakeable, Awake, hsleep, decide_eq_true hst, decide_eq_false hne]
    rfl

/-- What a wakeup of `nr` exclusive waiters, or with `nr = 0` of all, does to the queue: **one more
waiter is awake, or all are**. -/
lemma Queued.wakeUpCommon {s s' : St T} (h : Queued s) {nr : ℤ} (hnr : 0 ≤ nr)
    (hwait : s'.x.wait = s.x.wait)
    (hstate : s'.state
      = Wait.wakeUpCommon (defaultWakeFunction taskNormal) s.x.wait nr s.state) :
    (∀ t, s'.state t = taskRunning ∨ s'.state t = s.state t) ∧
      (awake s' = s.x.wait.length ∨ nr ≠ 0 ∧ awake s + 1 ≤ awake s') := by
  rcases (wakesTask_defaultWakeFunction (T := T) taskNormal).wakeUpCommon s.x.wait nr s.state
    h.nodup with ⟨pre, post, hsplit, hpre, hwoken⟩
  rw [id, id] at hwoken
  rw [id] at hpre
  have hstep : ∀ t, s'.state t = taskRunning ∨ s'.state t = s.state t := by
    intro t
    rw [hstate, hwoken, wokenStates]
    split_ifs
    · exact .inl rfl
    · exact .inr rfl
  have hmono : ∀ e, Awake s.state e = true → Awake s'.state e = true := by
    intro e he
    rcases hstep e.task with hrun | hsame
    · exact decide_eq_true hrun
    · rw [Awake, hsame]
      exact he
  have hall : ∀ e ∈ pre, Awake s'.state e = true := by
    intro e he
    have hmem : e ∈ s.x.wait := hsplit ▸ List.mem_append_left _ he
    by_cases hawake : Awake s.state e = true
    · exact hmono e hawake
    · rw [Awake, hstate, hwoken, wokenStates, if_pos]
      · rfl
      · refine ⟨e, he, rfl, ?_⟩
        rw [h.wakeable hmem]
        simpa using hawake
  refine ⟨hstep, ?_⟩
  by_cases hpost : post = []
  · left
    rw [hpost, List.append_nil] at hsplit
    rw [awake, hwait, hsplit, List.countP_eq_length]
    exact hall
  · right
    rcases hpre.last hpost with ⟨front, e, rfl, he⟩
    have hcount := hpre.count hpost
    refine ⟨?_, ?_⟩
    · rintro rfl
      rw [List.countP_append, List.countP_singleton, if_pos he] at hcount
      push_cast at hcount
      omega
    · have hasleep : Awake s.state e = false := by
        have hmem : e ∈ s.x.wait := by
          rw [hsplit]
          simp
        have hwakeable : Wakeable s.state taskNormal e = true := (Bool.and_eq_true _ _).mp he |>.1
        rw [h.wakeable hmem] at hwakeable
        simpa using hwakeable
      have hfront : front.countP (Awake s.state) ≤ front.countP (Awake s'.state) :=
        List.countP_mono_left fun a _ => hmono a
      have hrest : post.countP (Awake s.state) ≤ post.countP (Awake s'.state) :=
        List.countP_mono_left fun a _ => hmono a
      rw [awake, awake, hwait, hsplit]
      simp only [List.countP_append, List.countP_singleton, hasleep, hall e (by simp), if_true]
      simp only [Bool.false_eq_true, if_false]
      omega

end Wait
