import OsPrj.BurgerBuddies.Leave

/-!
# BurgerBuddies always finishes

Two halves.  **Every run is short**: a round of a cook starts with a wait on `empty_rack`, a
round of a cashier with a wait on `order_num`, and the ledger bounds both.  **A state without a
move is the final one**: the lock order excludes the four mutex semaphores, so a stuck thread
waits on a counting semaphore at a known index (`StuckAt`), and the ledger at these indices
leaves one solution.
-/

namespace BurgerBuddies

open SemProg

variable {a : Args} {st : St a}

/-! ## The length of a run -/

lemma cook_work_le (hr : Reachable a st) (i : Fin a.cookNum) :
    work (code a) st (.cook i) ≤ 7 * done (code a) st (.cook i) (.wait .emptyRack) := by
  have hfirst : ∀ k ≤ cookFunc.body.length, k ≤ cookFunc.body.length
      * (cookFunc.body.take k).count (.wait .emptyRack) := by decide
  have hcount : (code a (.cook i)).body.count (.wait .emptyRack) = 1 := by
    show cookFunc.body.count _ = 1
    decide
  exact work_le hcount hfirst (SemProg.Reachable.inBody hr (.cook i)).1

lemma cashier_work_le (hr : Reachable a st) (i : Fin a.cashierNum) :
    work (code a) st (.cashier i) ≤ 12 * done (code a) st (.cashier i) (.wait .orderNum) := by
  have hfirst : ∀ k ≤ cashierFunc.body.length, k ≤ cashierFunc.body.length
      * (cashierFunc.body.take k).count (.wait .orderNum) := by decide
  have hcount : (code a (.cashier i)).body.count (.wait .orderNum) = 1 := by
    show cashierFunc.body.count _ = 1
    decide
  exact work_le hcount hfirst (SemProg.Reachable.inBody hr (.cashier i)).1

lemma customer_work_le (hr : Reachable a st) (i : Fin a.custNum) :
    work (code a) st (.customer i) ≤ 12 := by
  rw [work, SemProg.Reachable.laps_eq_zero hr rfl, Nat.zero_mul, Nat.zero_add]
  exact customer_pc_le hr i

/-- The work of all threads, in the four parameters. -/
theorem work_bound (hr : Reachable a st) :
    ∑ t, work (code a) st t ≤ 7 * (a.rackNum + a.custNum) + 24 * a.custNum := by
  have hcook : ∑ i, work (code a) st (.cook i)
      ≤ 7 * ∑ i, done (code a) st (.cook i) (.wait .emptyRack) := by
    rw [Finset.mul_sum]
    exact Finset.sum_le_sum fun i _ => cook_work_le hr i
  have hcashier : ∑ i, work (code a) st (.cashier i)
      ≤ 12 * ∑ i, done (code a) st (.cashier i) (.wait .orderNum) := by
    rw [Finset.mul_sum]
    exact Finset.sum_le_sum fun i _ => cashier_work_le hr i
  have hcustomer : ∑ i, work (code a) st (.customer i) ≤ 12 * a.custNum := by
    refine (Finset.sum_le_sum fun i _ => customer_work_le hr i).trans (le_of_eq ?_)
    simp [mul_comm]
  have hempty : ∑ i, done (code a) st (.cook i) (.wait .emptyRack)
      ≤ total (code a) st (.wait .emptyRack) := by
    rw [total, sum_thread, add_assoc]
    exact Nat.le_add_right _ _
  have horder : ∑ i, done (code a) st (.cashier i) (.wait .orderNum)
      ≤ total (code a) st (.wait .orderNum) := by
    rw [total, sum_thread, add_comm (∑ i, done (code a) st (.cook i) _), add_assoc]
    exact Nat.le_add_right _ _
  obtain ⟨h₁, h₂, h₃, h₄, h₅, h₆, h₇, h₈, h₉, h₁₀, h₁₁, h₁₂, h₁₃, h₁₄⟩ := hr.ledger
  rw [sum_thread]
  omega

/-! ## Stuck states -/

/-- The sections of the four mutex semaphores wait on `mutex_print` only. -/
lemma code_ordered (t : Thread a) {M : Sem} (hM : isMutex M = true) :
    (code a t).Ordered isMutex mutexRank M := by
  have hcode : code a t = cookFunc ∨ code a t = cashierFunc ∨ code a t = customFunc := by
    cases t <;> simp [code]
  rcases hcode with h | h | h <;> rw [h] <;> cases M <;>
    first | decide | exact absurd hM (by decide)

/-- Where the threads of a stuck state stand: a cook at its `sem_wait(&empty_rack)`, a cashier at
its wait for an order or for a burger, a customer at its end or at its wait to be served. -/
structure StuckAt (st : St a) : Prop where
  cook : ∀ i, st.pc (.cook i) = 0 ∧ st.sem .emptyRack = 0
  cashier : ∀ i, st.pc (.cashier i) = 0 ∧ st.sem .orderNum = 0 ∨
    st.pc (.cashier i) = 4 ∧ st.sem .burgerNum = 0
  customer : ∀ i, st.pc (.customer i) = 12 ∨
    st.pc (.customer i) = 6 ∧ st.sem .provideNum = 0

/-- A stuck thread has ended or waits on a counting semaphore at `0`. -/
lemma stuck_thread (hr : Reachable a st) (hstuck : Stuck a st) (t : Thread a) :
    (code a t).body.length ≤ st.pc t ∨
      ∃ s, (code a t).body[st.pc t]? = some (.wait s) ∧ isMutex s = false ∧ st.sem s = 0 := by
  rcases step_eq_none (hstuck t) with hend | ⟨s, hs, h0⟩
  · exact Or.inl hend
  · refine Or.inr ⟨s, hs, ?_, h0⟩
    by_contra hmutex
    have hM : isMutex s = true := by simpa using hmutex
    exact not_blocked_on_mutex (fun M hM => semaphoreInit_mutex hM)
      (fun t M hM => code_ordered t hM) hr hstuck s hM t hs

/-- The waits on counting semaphores, by index. -/
lemma waits_cook : ∀ k < 7, ∀ s, cookFunc.body[k]? = some (.wait s) → isMutex s = false →
    k = 0 ∧ s = .emptyRack := by decide

set_option synthInstance.maxSize 256 in
lemma waits_cashier : ∀ k < 12, ∀ s, cashierFunc.body[k]? = some (.wait s) →
    isMutex s = false → k = 0 ∧ s = .orderNum ∨ k = 4 ∧ s = .burgerNum := by decide

lemma waits_custom : ∀ k ≤ 12, ∀ s, customFunc.body[k]? = some (.wait s) →
    isMutex s = false → k = 6 ∧ s = .provideNum := by decide

theorem stuckAt (hr : Reachable a st) (hstuck : Stuck a st) : StuckAt st where
  cook i := by
    have hpc : st.pc (.cook i) < 7 :=
      (SemProg.Reachable.inBody hr (.cook i)).2 rfl (by simp [code, cookFunc])
    rcases stuck_thread hr hstuck (.cook i) with hend | ⟨s, hs, hmutex, h0⟩
    · have hend' : 7 ≤ st.pc (.cook i) := hend
      omega
    · obtain ⟨hk, rfl⟩ := waits_cook _ hpc s hs hmutex
      exact ⟨hk, h0⟩
  cashier i := by
    have hpc : st.pc (.cashier i) < 12 :=
      (SemProg.Reachable.inBody hr (.cashier i)).2 rfl (by simp [code, cashierFunc])
    rcases stuck_thread hr hstuck (.cashier i) with hend | ⟨s, hs, hmutex, h0⟩
    · have hend' : 12 ≤ st.pc (.cashier i) := hend
      omega
    · rcases waits_cashier _ hpc s hs hmutex with ⟨hk, rfl⟩ | ⟨hk, rfl⟩
      · exact Or.inl ⟨hk, h0⟩
      · exact Or.inr ⟨hk, h0⟩
  customer i := by
    have hpc := customer_pc_le hr i
    rcases stuck_thread hr hstuck (.customer i) with hend | ⟨s, hs, hmutex, h0⟩
    · have hend' : 12 ≤ st.pc (.customer i) := hend
      exact Or.inl (by omega)
    · obtain ⟨hk, rfl⟩ := waits_custom _ hpc s hs hmutex
      exact Or.inr ⟨hk, h0⟩

/-! ## The counts of a stuck state -/

/-- At their wait for a free place the cooks have executed all their statements equally often. -/
lemma StuckAt.total_cooks (hs : StuckAt st) {x : Stmt} (hcashier : x ∉ cashierFunc.body)
    (hcustom : x ∉ customFunc.body) (hcount : cookFunc.body.count x = 1) :
    total (code a) st x = ∑ i, st.laps (.cook i) := by
  have h₁ : ∀ i, done (code a) st (.cook i) x = st.laps (.cook i) := by
    intro i
    show st.laps (.cook i) * cookFunc.body.count x
      + (cookFunc.body.take (st.pc (.cook i))).count x = _
    rw [hcount, (hs.cook i).1]
    simp
  have h₂ : ∀ i, done (code a) st (.cashier i) x = 0 := fun i => done_of_notMem hcashier
  have h₃ : ∀ i, done (code a) st (.customer i) x = 0 := fun i => done_of_notMem hcustom
  simp [total, sum_thread, h₁, h₂, h₃]

/-- The cashiers have executed what follows their wait for a burger once per finished round. -/
lemma StuckAt.total_cashiers (hs : StuckAt st) {x : Stmt} (hcook : x ∉ cookFunc.body)
    (hcustom : x ∉ customFunc.body) (hcount : cashierFunc.body.count x = 1)
    (hlate : (cashierFunc.body.take 4).count x = 0) :
    total (code a) st x = ∑ i, st.laps (.cashier i) := by
  have h₁ : ∀ i, done (code a) st (.cashier i) x = st.laps (.cashier i) := by
    intro i
    show st.laps (.cashier i) * cashierFunc.body.count x
      + (cashierFunc.body.take (st.pc (.cashier i))).count x = _
    rcases hs.cashier i with ⟨hk, -⟩ | ⟨hk, -⟩
    · rw [hcount, hk]
      simp
    · rw [hcount, hk, hlate]
      simp
  have h₂ : ∀ i, done (code a) st (.cook i) x = 0 := fun i => done_of_notMem hcook
  have h₃ : ∀ i, done (code a) st (.customer i) x = 0 := fun i => done_of_notMem hcustom
  simp [total, sum_thread, h₁, h₂, h₃]

/-- Every customer has executed what precedes its wait to be served. -/
lemma StuckAt.total_customers (hr : Reachable a st) (hs : StuckAt st) {x : Stmt}
    (hcook : x ∉ cookFunc.body) (hcashier : x ∉ cashierFunc.body)
    (hearly : (customFunc.body.take 6).count x = 1) (hcount : customFunc.body.count x = 1) :
    total (code a) st x = a.custNum := by
  rw [BurgerBuddies.total_customers hr hcook hcashier]
  have h : ∀ i, (customFunc.body.take (st.pc (.customer i))).count x = 1 := by
    intro i
    rcases hs.customer i with hk | ⟨hk, -⟩
    · rw [hk]
      exact hcount
    · rw [hk]
      exact hearly
  simp [h]

/-- A statement of `custom_func` alone, once every customer has ended. -/
lemma total_of_ended (hr : Reachable a st) (hend : ∀ i, st.pc (.customer i) = 12) {x : Stmt}
    (hcook : x ∉ cookFunc.body) (hcashier : x ∉ cashierFunc.body)
    (hcount : customFunc.body.count x = 1) : total (code a) st x = a.custNum := by
  have htake : customFunc.body.take 12 = customFunc.body := rfl
  rw [total_customers hr hcook hcashier]
  simp [hend, htake, hcount]

/-- No stuck thread is inside a mutex section. -/
lemma StuckAt.mutex_eq_one (hr : Reachable a st) (hs : StuckAt st) {M : Sem}
    (hM : isMutex M = true) : st.sem M = 1 := by
  have hle := mutex_le_one hr hM
  by_contra hne
  obtain ⟨t, ht⟩ := exists_inSection (semaphoreInit_mutex hM) hr (by omega)
  obtain ⟨hcount, -⟩ := code_ordered t hM
  -- at the indices of `StuckAt` every section that was entered has been left
  have hcook : (cookFunc.body.take 0).count (.wait M) ≤ (cookFunc.body.take 0).count (.post M) := by
    simp
  have hcashier : ∀ k, k = 0 ∨ k = 4 → (cashierFunc.body.take k).count (.wait M)
      ≤ (cashierFunc.body.take k).count (.post M) := by
    rintro k (rfl | rfl) <;> cases M <;> first | decide | exact absurd hM (by decide)
  have hcustom : ∀ k, k = 12 ∨ k = 6 → (customFunc.body.take k).count (.wait M)
      ≤ (customFunc.body.take k).count (.post M) := by
    rintro k (rfl | rfl) <;> cases M <;> first | decide | exact absurd hM (by decide)
  unfold InSection done at ht
  rw [hcount] at ht
  cases t with
  | cook i =>
      have := hcook
      simp only [code, (hs.cook i).1] at ht
      omega
  | cashier i =>
      have := hcashier _ ((hs.cashier i).imp And.left And.left)
      simp only [code] at ht
      omega
  | customer i =>
      have := hcustom _ ((hs.customer i).imp id And.left)
      simp only [code] at ht
      omega

/-- The rack is full: the cooks have waited for a place as often as they have offered a burger, and
the cashiers have waited for a burger as often as they have freed a place. -/
lemma StuckAt.burgerNum_eq (hr : Reachable a st) (hs : StuckAt st) :
    st.sem .burgerNum = a.rackNum := by
  have hwaitE := hs.total_cooks (x := .wait .emptyRack) (by decide) (by decide) (by decide)
  have hoffer := hs.total_cooks (x := .post .burgerNum) (by decide) (by decide) (by decide)
  have hwaitB := hs.total_cashiers (x := .wait .burgerNum) (by decide) (by decide) (by decide)
    (by decide)
  have hfree := hs.total_cashiers (x := .post .emptyRack) (by decide) (by decide) (by decide)
    (by decide)
  have hzero : st.sem .emptyRack = 0 := (hs.cook ⟨0, a.cook_pos⟩).2
  have hrack := hr.ledger.emptyRack
  have hburger := hr.ledger.burgerNum
  omega

/-- So no cashier waits for a burger. -/
lemma StuckAt.cashier_idle (hr : Reachable a st) (hs : StuckAt st) (i : Fin a.cashierNum) :
    st.pc (.cashier i) = 0 ∧ st.sem .orderNum = 0 := by
  rcases hs.cashier i with h | ⟨-, h0⟩
  · exact h
  · have hfull := hs.burgerNum_eq hr
    have hpos := a.rack_pos
    omega

/-- The cashiers have waited for an order once per finished round. -/
lemma StuckAt.total_waitOrder (hr : Reachable a st) (hs : StuckAt st) :
    total (code a) st (.wait .orderNum) = ∑ i, st.laps (.cashier i) := by
  have h₁ : ∀ i, done (code a) st (.cashier i) (.wait .orderNum) = st.laps (.cashier i) := by
    intro i
    show st.laps (.cashier i) * cashierFunc.body.count (.wait .orderNum)
      + (cashierFunc.body.take (st.pc (.cashier i))).count (.wait .orderNum) = _
    rw [(hs.cashier_idle hr i).1]
    have hcount : cashierFunc.body.count (.wait .orderNum) = 1 := by decide
    simp [hcount]
  have h₂ : ∀ i, done (code a) st (.cook i) (.wait .orderNum) = 0 :=
    fun i => done_of_notMem (show _ ∉ cookFunc.body by decide)
  have h₃ : ∀ i, done (code a) st (.customer i) (.wait .orderNum) = 0 :=
    fun i => done_of_notMem (show _ ∉ customFunc.body by decide)
  simp [total, sum_thread, h₁, h₂, h₃]

/-- All orders are served. -/
lemma StuckAt.provideNum_add_served (hr : Reachable a st) (hs : StuckAt st) :
    st.sem .provideNum + served st = a.custNum := by
  have hwaitO := hs.total_waitOrder hr
  have hprovide := hs.total_cashiers (x := .post .provideNum) (by decide) (by decide) (by decide)
    (by decide)
  have horder := hs.total_customers (x := .post .orderNum) hr (by decide) (by decide) (by decide)
    (by decide)
  have hzero := (hs.cashier_idle hr ⟨0, a.cashier_pos⟩).2
  have horderNum := hr.ledger.orderNum
  have hprovideNum := hr.ledger.provideNum
  rw [served_eq_total hr]
  omega

/-- A customer still waiting would be missing in the count. -/
lemma StuckAt.ended (hr : Reachable a st) (hs : StuckAt st) (i : Fin a.custNum) :
    st.pc (.customer i) = 12 := by
  rcases hs.customer i with h | ⟨h6, h0⟩
  · exact h
  · exfalso
    have hserved := hs.provideNum_add_served hr
    have hsub : (Finset.univ.filter fun j : Fin a.custNum => 6 < st.pc (.customer j))
        ⊂ Finset.univ := by
      rw [Finset.filter_ssubset]
      exact ⟨i, Finset.mem_univ i, by omega⟩
    have hlt : served st < a.custNum := by
      simpa [served] using Finset.card_lt_card hsub
    omega

/-- Each of them has raised `left_num`, and the last one has noticed. -/
lemma StuckAt.left (hr : Reachable a st) (hs : StuckAt st) :
    st.mem.leftNum = a.custNum ∧ st.mem.terminateSignal = 1 := by
  have hwrites := total_of_ended (x := .act .writeLeft) hr (hs.ended hr) (by decide) (by decide)
    (by decide)
  have hleft : st.mem.leftNum = a.custNum := by rw [hr.leaveInv.leftNum_eq, hwrites]
  refine ⟨hleft, ?_⟩
  rcases hr.leaveInv.noticed hleft with h | ⟨i, hi⟩
  · exact h
  · rw [hs.ended hr i] at hi
    omega

/-- The final state, as far as the statement of the program goes. -/
structure Final (st : St a) : Prop where
  ended : ∀ i, st.pc (.customer i) = 12
  leftNum : st.mem.leftNum = a.custNum
  terminateSignal : st.mem.terminateSignal = 1
  emptyRack : st.sem .emptyRack = 0
  burgerNum : st.sem .burgerNum = a.rackNum
  orderNum : st.sem .orderNum = 0
  provideNum : st.sem .provideNum = 0
  mutex : ∀ M, isMutex M = true → st.sem M = 1
  made : printed st .make = a.rackNum + a.custNum
  taken : printed st .take = a.custNum

/-- **A stuck state is the final state.** -/
theorem final_of_stuck (hr : Reachable a st) (hstuck : Stuck a st) : Final st := by
  have hs := stuckAt hr hstuck
  have hmake := hs.total_cooks (x := .act (.print .make)) (by decide) (by decide) (by decide)
  have hwaitE := hs.total_cooks (x := .wait .emptyRack) (by decide) (by decide) (by decide)
  have htake := hs.total_cashiers (x := .act (.print .take)) (by decide) (by decide) (by decide)
    (by decide)
  have hfree := hs.total_cashiers (x := .post .emptyRack) (by decide) (by decide) (by decide)
    (by decide)
  have hprovide := hs.total_cashiers (x := .post .provideNum) (by decide) (by decide) (by decide)
    (by decide)
  have hzero : st.sem .emptyRack = 0 := (hs.cook ⟨0, a.cook_pos⟩).2
  have hrack := hr.ledger.emptyRack
  have hserved := hs.provideNum_add_served hr
  have hall : served st = a.custNum := by simp [served, hs.ended hr]
  have hprovideNum := hr.ledger.provideNum
  rw [served_eq_total hr] at hserved hall
  exact
    { ended := hs.ended hr
      leftNum := (hs.left hr).1
      terminateSignal := (hs.left hr).2
      emptyRack := hzero
      burgerNum := hs.burgerNum_eq hr
      orderNum := (hs.cashier_idle hr ⟨0, a.cashier_pos⟩).2
      provideNum := by omega
      mutex := fun M hM => hs.mutex_eq_one hr hM
      made := by rw [printed_eq_total hr]; omega
      taken := by rw [printed_eq_total hr]; omega }

/-- **BurgerBuddies always finishes and never deadlocks.**  The length of every interleaving is
bounded by the four parameters, and an interleaving that cannot be continued has served every
customer and ends with the same semaphores and the same counts of burgers. -/
theorem always_finishes (a : Args) (is : List (Thread a)) (st : St a)
    (hrun : run a is = some st) :
    is.length ≤ 7 * (a.rackNum + a.custNum) + 24 * a.custNum ∧
    (Stuck a st →
      ((∀ i, st.pc (.customer i) = customFunc.body.length) ∧ st.mem.leftNum = a.custNum ∧
        st.mem.terminateSignal = 1) ∧
      (st.sem .emptyRack = 0 ∧ st.sem .burgerNum = a.rackNum ∧ st.sem .orderNum = 0 ∧
        st.sem .provideNum = 0 ∧ (∀ M, isMutex M = true → st.sem M = 1)) ∧
      printed st .make = a.rackNum + a.custNum ∧ printed st .take = a.custNum) := by
  have hr : Reachable a st := ⟨is, hrun⟩
  refine ⟨?_, fun hstuck => ?_⟩
  · have hlen := exec_length hrun
    have hstart : ∑ t, work (code a) (BurgerBuddies.start a) t = 0 := by
      simp [work, BurgerBuddies.start, SemProg.start]
    have hbound := work_bound hr
    omega
  · have hf := final_of_stuck hr hstuck
    exact ⟨⟨hf.ended, hf.leftNum, hf.terminateSignal⟩,
      ⟨hf.emptyRack, hf.burgerNum, hf.orderNum, hf.provideNum, hf.mutex⟩, hf.made, hf.taken⟩

theorem always_finishes_oneEach : ∃ st, run oneEach serveOne = some st ∧
    serveOne.length ≤ 38 ∧ st.mem.terminateSignal = 1 ∧ printed st .make = 2 := by
  have hsome : (run oneEach serveOne).isSome := by decide
  obtain ⟨st, hst⟩ := Option.isSome_iff_exists.mp hsome
  have hstuck : Stuck oneEach st := by
    have h : ∀ t, step (code oneEach) (effect oneEach) ((run oneEach serveOne).get hsome) t
        = none := by
      rintro (⟨_ | n, hn⟩ | ⟨_ | n, hn⟩ | ⟨_ | n, hn⟩) <;>
        first | rfl | exact absurd hn (Nat.not_lt.mpr (Nat.le_add_left 1 n))
    have hget : (run oneEach serveOne).get hsome = st := by simp [hst]
    rwa [hget] at h
  obtain ⟨hlen, hfinal⟩ := always_finishes oneEach serveOne st hst
  obtain ⟨⟨-, -, hsignal⟩, -, hmade, -⟩ := hfinal hstuck
  exact ⟨st, hst, hlen, hsignal, hmade⟩

end BurgerBuddies
