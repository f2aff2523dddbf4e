import OsPrj.BurgerBuddies.Conservation

/-!
# The leave section

`left_num++` is a read and a write, and the test that raises `terminate_signal` a third
statement; `mutex_leave` keeps other customers out of the three.  `LeaveInv` is the invariant:
`left_num` counts the executed writes, a customer between its read and its write holds the
current value, and a full count is either noticed already or about to be.
-/

namespace BurgerBuddies

open SemProg

variable {a : Args} {st st' : St a}

/-- `left_num` and `terminate_signal` against the counters of the customers: index 9 of
`custom_func` is the write of `left_num`, index 10 the test. -/
structure LeaveInv (st : St a) : Prop where
  leftNum_eq : st.mem.leftNum = total (code a) st (.act .writeLeft)
  reg_eq : ∀ i, st.pc (.customer i) = 9 → st.mem.reg (.customer i) = st.mem.leftNum
  noticed : st.mem.leftNum = a.custNum →
    st.mem.terminateSignal = 1 ∨ ∃ i, st.pc (.customer i) = 10
  signal : st.mem.terminateSignal = 0 ∨
    st.mem.terminateSignal = 1 ∧ st.mem.leftNum = a.custNum

/-- A statement of `custom_func` alone is executed by a customer. -/
lemma customer_of_stmt {t : Thread a} {x : Stmt} (h : (code a t).body[st.pc t]? = some x)
    (hcook : x ∉ cookFunc.body) (hcashier : x ∉ cashierFunc.body) :
    ∃ i, t = .customer i ∧ customFunc.body[st.pc (.customer i)]? = some x := by
  cases t with
  | cook i => exact absurd (List.mem_of_getElem? h) hcook
  | cashier i => exact absurd (List.mem_of_getElem? h) hcashier
  | customer i => exact ⟨i, rfl, h⟩

/-- A step moves the counter of its own thread only, a customer's by one. -/
lemma customer_pc_step {t : Thread a} (h : step (code a) (effect a) st t = some st')
    (i : Fin a.custNum) :
    st'.pc (.customer i) = st.pc (.customer i) + if t = .customer i then 1 else 0 := by
  obtain ⟨x, -, -, rfl⟩ := step_cases h
  rcases eq_or_ne (Thread.customer i) t with rfl | hne
  · simp [advance, code, customFunc]
  · have hne' : t ≠ .customer i := hne.symm
    simp only [advance, if_neg hne', add_zero]
    split_ifs <;> simp [Function.update_of_ne hne]

lemma customer_pc_self {i : Fin a.custNum}
    (h : step (code a) (effect a) st (.customer i) = some st') :
    st'.pc (.customer i) = st.pc (.customer i) + 1 := by
  have hstep := customer_pc_step h i
  rwa [if_pos rfl] at hstep

lemma customer_pc_of_ne {t : Thread a} (h : step (code a) (effect a) st t = some st')
    {i : Fin a.custNum} (hne : t ≠ .customer i) : st'.pc (.customer i) = st.pc (.customer i) := by
  have hstep := customer_pc_step h i
  rwa [if_neg hne, add_zero] at hstep

/-- What an action of a customer does, and how it counts as a write of `left_num`. -/
lemma customer_act {i : Fin a.custNum} {x : Action}
    (h : step (code a) (effect a) st (.customer i) = some st')
    (hx : customFunc.body[st.pc (.customer i)]? = some (.act x)) :
    st'.mem = effect a (.customer i) x st.mem ∧ total (code a) st' (.act .writeLeft)
      = total (code a) st (.act .writeLeft) + if x = .writeLeft then 1 else 0 := by
  obtain ⟨y, hy, -, -, hmem, htotal⟩ := total_step h
  obtain rfl : y = .act x := Option.some.inj (hy.symm.trans hx)
  refine ⟨hmem, ?_⟩
  rw [htotal]
  simp only [Instr.act.injEq]

/-- The statements of the leave section, by index. -/
lemma customFunc_index : ∀ k ≤ 12,
    (customFunc.body[k]? = some (.act .readLeft) ↔ k = 8) ∧
    (customFunc.body[k]? = some (.act .writeLeft) ↔ k = 9) ∧
    (customFunc.body[k]? = some (.act .checkLeft) ↔ k = 10) := by
  decide

lemma inSection_leave : ∀ k ≤ 12, k = 9 →
    (customFunc.body.take k).count (.post .mutexLeave)
      < (customFunc.body.take k).count (.wait .mutexLeave) := by
  decide

/-- At most one customer is about to write `left_num`. -/
lemma writer_unique (hr : Reachable a st) {i j : Fin a.custNum}
    (hi : st.pc (.customer i) = 9) (hj : st.pc (.customer j) = 9) : i = j := by
  have hin : ∀ k, st.pc (.customer k) = 9 → InSection (code a) st .mutexLeave (.customer k) := by
    intro k hk
    rw [InSection, customer_done hr, customer_done hr]
    exact inSection_leave _ (customer_pc_le hr k) hk
  have hleads := leads_mutex (a := a) (M := .mutexLeave) rfl
  have h := mutex_exclusive (semaphoreInit_mutex rfl) hleads hr (hin i hi) (hin j hj)
  exact Thread.customer.inj h

/-- A statement that touches neither `left_num` nor `terminate_signal` keeps the invariant. -/
lemma LeaveInv.of_mem_eq {t : Thread a} {x : Stmt} (hr : Reachable a st) (hinv : LeaveInv st)
    (hst : step (code a) (effect a) st t = some st')
    (hx : (code a t).body[st.pc t]? = some x) (hread : x ≠ .act .readLeft)
    (hcheck : x ≠ .act .checkLeft) (hwrite : total (code a) st' (.act .writeLeft)
      = total (code a) st (.act .writeLeft))
    (hmem : st'.mem.leftNum = st.mem.leftNum ∧ st'.mem.reg = st.mem.reg ∧
      st'.mem.terminateSignal = st.mem.terminateSignal) : LeaveInv st' := by
  obtain ⟨hleft, hreg, hsig⟩ := hmem
  -- the thread that moved was neither before the read nor at the test
  have hpc : ∀ i, t = .customer i → st.pc (.customer i) ≠ 8 ∧ st.pc (.customer i) ≠ 10 := by
    rintro i rfl
    have hidx := customFunc_index _ (customer_pc_le hr i)
    refine ⟨fun h8 => hread ?_, fun h10 => hcheck ?_⟩
    · exact Option.some.inj (hx.symm.trans (hidx.1.mpr h8))
    · exact Option.some.inj (hx.symm.trans (hidx.2.2.mpr h10))
  refine ⟨by rw [hleft, hwrite, hinv.leftNum_eq], fun i hi => ?_, fun hfull => ?_, ?_⟩
  · rw [hreg, hleft]
    rcases eq_or_ne t (.customer i) with rfl | ht
    · rw [customer_pc_self hst] at hi
      exact absurd (by omega) (hpc i rfl).1
    · exact hinv.reg_eq i (customer_pc_of_ne hst ht ▸ hi)
  · rw [hleft] at hfull
    rw [hsig]
    rcases hinv.noticed hfull with h | ⟨i, hi⟩
    · exact Or.inl h
    · refine Or.inr ⟨i, ?_⟩
      rcases eq_or_ne t (.customer i) with ht | ht
      · exact absurd hi (hpc i ht).2
      · rw [customer_pc_of_ne hst ht, hi]
  · rw [hsig, hleft]
    exact hinv.signal

/-- The read: the register of the customer holds the value just read. -/
lemma LeaveInv.readLeft (hr : Reachable a st) (hinv : LeaveInv st) {i : Fin a.custNum}
    (hst : step (code a) (effect a) st (.customer i) = some st')
    (hx : customFunc.body[st.pc (.customer i)]? = some (.act .readLeft)) : LeaveInv st' := by
  have h8 := (customFunc_index _ (customer_pc_le hr i)).1.mp hx
  obtain ⟨hmem, hwrite⟩ := customer_act hst hx
  rw [if_neg (by decide), add_zero] at hwrite
  refine ⟨by rw [hmem, hwrite]; exact hinv.leftNum_eq, fun j hj => ?_, fun hfull => ?_,
    by rw [hmem]; exact hinv.signal⟩
  · rw [hmem]
    rcases eq_or_ne (Thread.customer i) (.customer j) with heq | hne
    · simp [effect, heq]
    · rw [customer_pc_of_ne hst hne] at hj
      simp only [effect, Function.update_of_ne hne.symm]
      exact hinv.reg_eq j hj
  · rw [hmem] at hfull ⊢
    rcases hinv.noticed hfull with h | ⟨j, hj⟩
    · exact Or.inl h
    · refine Or.inr ⟨j, ?_⟩
      have hne : Thread.customer i ≠ .customer j := by
        rintro heq
        rw [heq, hj] at h8
        omega
      rw [customer_pc_of_ne hst hne, hj]

/-- The write: nobody else is before a write, and the test comes next. -/
lemma LeaveInv.writeLeft (hr : Reachable a st) (hinv : LeaveInv st) {i : Fin a.custNum}
    (hst : step (code a) (effect a) st (.customer i) = some st')
    (hx : customFunc.body[st.pc (.customer i)]? = some (.act .writeLeft)) : LeaveInv st' := by
  have h9 := (customFunc_index _ (customer_pc_le hr i)).2.1.mp hx
  obtain ⟨hmem, hwrite⟩ := customer_act hst hx
  simp only [effect, hinv.reg_eq i h9] at hmem
  rw [if_pos rfl] at hwrite
  have hle : total (code a) st' (.act .writeLeft) ≤ a.custNum :=
    total_le_custNum (hr.step hst) (by decide) (by decide) (by decide)
  have hleft := hinv.leftNum_eq
  refine ⟨by rw [hmem, hwrite, ← hleft], fun j hj => ?_, fun _ => Or.inr ⟨i, ?_⟩, ?_⟩
  · exfalso
    rcases eq_or_ne (Thread.customer i) (.customer j) with heq | hne
    · rw [← heq, customer_pc_self hst] at hj
      omega
    · rw [customer_pc_of_ne hst hne] at hj
      exact hne (congrArg Thread.customer (writer_unique hr h9 hj))
  · rw [customer_pc_self hst, h9]
  · rw [hmem]
    rcases hinv.signal with h0 | ⟨-, hfull⟩
    · exact Or.inl h0
    · omega

/-- The test: it notices a full count. -/
lemma LeaveInv.checkLeft (hr : Reachable a st) (hinv : LeaveInv st) {i : Fin a.custNum}
    (hst : step (code a) (effect a) st (.customer i) = some st')
    (hx : customFunc.body[st.pc (.customer i)]? = some (.act .checkLeft)) : LeaveInv st' := by
  have h10 := (customFunc_index _ (customer_pc_le hr i)).2.2.mp hx
  obtain ⟨hmem, hwrite⟩ := customer_act hst hx
  rw [if_neg (by decide), add_zero] at hwrite
  simp only [effect] at hmem
  have hleft : st'.mem.leftNum = st.mem.leftNum := by
    rw [hmem]
    split_ifs <;> rfl
  have hregs : st'.mem.reg = st.mem.reg := by
    rw [hmem]
    split_ifs <;> rfl
  refine ⟨by rw [hleft, hwrite, hinv.leftNum_eq], fun j hj => ?_, fun hfull => ?_, ?_⟩
  · have hne : Thread.customer i ≠ .customer j := by
      rintro heq
      rw [← heq, customer_pc_self hst] at hj
      omega
    rw [hregs, hleft]
    exact hinv.reg_eq j (customer_pc_of_ne hst hne ▸ hj)
  · rw [hleft] at hfull
    rw [hmem, if_pos hfull]
    exact Or.inl rfl
  · rw [hleft, hmem]
    split_ifs with hfull
    · exact Or.inr ⟨rfl, hfull⟩
    · exact hinv.signal

lemma leaveInv_start (a : Args) : LeaveInv (start a) := by
  refine ⟨?_, fun i hi => ?_, fun hfull => ?_, Or.inl rfl⟩
  · rw [start, total_start]
    rfl
  · exact absurd hi (by simp [start, SemProg.start])
  · have := a.cust_pos
    simp only [start, SemProg.start, memInit] at hfull
    omega

theorem Reachable.leaveInv (hr : Reachable a st) : LeaveInv st := by
  refine SemProg.Reachable.induct (P := LeaveInv) (leaveInv_start a) ?_ hr
  intro st st' t hr hinv hst
  obtain ⟨x, hx, -, -, hmem, htot⟩ := total_step hst
  have hwrite := htot (.act .writeLeft)
  cases x with
  | wait s =>
      exact hinv.of_mem_eq hr hst hx (by simp) (by simp) (by simpa using hwrite)
        (by simp [hmem, Instr.mem])
  | post s =>
      exact hinv.of_mem_eq hr hst hx (by simp) (by simp) (by simpa using hwrite)
        (by simp [hmem, Instr.mem])
  | act b =>
      cases b with
      | print l =>
          exact hinv.of_mem_eq hr hst hx (by simp) (by simp) (by simpa using hwrite)
            (by simp [hmem, Instr.mem, effect])
      | readLeft =>
          obtain ⟨i, rfl, hxi⟩ := customer_of_stmt hx (by decide) (by decide)
          exact hinv.readLeft hr hst hxi
      | writeLeft =>
          obtain ⟨i, rfl, hxi⟩ := customer_of_stmt hx (by decide) (by decide)
          exact hinv.writeLeft hr hst hxi
      | checkLeft =>
          obtain ⟨i, rfl, hxi⟩ := customer_of_stmt hx (by decide) (by decide)
          exact hinv.checkLeft hr hst hxi

end BurgerBuddies
