import OsPrj.BurgerBuddies.Termination

/-!
# The termination signal

`main` waits for `terminate_signal`, which the customer raises that finds `left_num` equal to
`cust_num`.  `left_num` is read and written in two steps, so the count is right only because
`mutex_leave` keeps the customers apart (`LeaveInv`); from the count back to the burgers it is the
ledger.
-/

namespace BurgerBuddies

open SemProg

variable {a : Args} {st st' : St a}

/-- The customers that have executed the write of `left_num`, the statement at index 9. -/
def left (st : St a) : ℕ :=
  (Finset.univ.filter fun i : Fin a.custNum => 9 < st.pc (.customer i)).card

lemma count_writeLeft : ∀ k ≤ 12,
    (customFunc.body.take k).count (.act .writeLeft) = if 9 < k then 1 else 0 := by
  decide

/-- The customers past the write are the executions of it. -/
theorem left_eq_total (hr : Reachable a st) : left st = total (code a) st (.act .writeLeft) := by
  rw [total_customers hr (by decide) (by decide)]
  simp only [count_writeLeft _ (customer_pc_le hr _), Finset.sum_boole, left, Nat.cast_id]

/-- **No increment is lost**: every execution of the write raises `left_num` by one, whatever the
other customers did since the read, and no other statement changes it. -/
theorem leftNum_step (hr : Reachable a st) {t : Thread a}
    (h : step (code a) (effect a) st t = some st') :
    st'.mem.leftNum = st.mem.leftNum +
      if (code a t).body[st.pc t]? = some (.act .writeLeft) then 1 else 0 := by
  have hr' : Reachable a st' := hr.step h
  rcases total_step h with ⟨x, hx, -, -, -, htotal⟩
  rw [hr'.leaveInv.leftNum_eq, hr.leaveInv.leftNum_eq, htotal, hx]
  simp only [Option.some.injEq]

/-- A full count leaves no customer before the write. -/
lemma past_write_of_full (hfull : left st = a.custNum) (i : Fin a.custNum) :
    9 < st.pc (.customer i) := by
  have hcard : left st = (Finset.univ : Finset (Fin a.custNum)).card := by
    rw [hfull, Finset.card_univ, Fintype.card_fin]
  have hall := (Finset.card_filter_eq_iff).mp hcard
  exact hall i (Finset.mem_univ i)

/-- Once all customers are served, one burger has been taken for each. -/
lemma taken_of_served (hr : Reachable a st) (hserved : ∀ i, 6 < st.pc (.customer i)) :
    printed st .take = a.custNum := by
  have hall : served st = a.custNum := by simp [served, hserved]
  rw [served_eq_total hr] at hall
  have hl := hr.ledger
  have hprovide := hl.provideNum
  have hprovided := hl.take_provide
  have htaken := hl.burger_take
  have hburger := hl.accept_burger
  have haccept := hl.order_accept
  have horder := hl.orderNum
  have hcome := hl.come_order
  have hle := hl.come_le
  rw [printed_eq_total hr]
  omega

/-- **BurgerBuddies signals termination exactly when everyone has been served.**  In every state
that an interleaving leads to, `left_num` counts the customers past its write, and a raised signal
means that all of them have been served, with one burger each; once all have ended it is raised. -/
theorem signals_when_served (a : Args) (is : List (Thread a)) (st : St a)
    (hrun : run a is = some st) :
    st.mem.leftNum = left st ∧
    (∀ t st', step (code a) (effect a) st t = some st' →
      st'.mem.leftNum = st.mem.leftNum +
        if (code a t).body[st.pc t]? = some (.act .writeLeft) then 1 else 0) ∧
    (st.mem.terminateSignal = 1 → st.mem.leftNum = a.custNum ∧
      (∀ i, 6 < st.pc (.customer i)) ∧ printed st .take = a.custNum) ∧
    ((∀ i, st.pc (.customer i) = customFunc.body.length) → st.mem.terminateSignal = 1) := by
  have hr : Reachable a st := ⟨is, hrun⟩
  have hinv := hr.leaveInv
  have hleft : st.mem.leftNum = left st := by rw [hinv.leftNum_eq, left_eq_total hr]
  refine ⟨hleft, fun t st' h => leftNum_step hr h, fun hsignal => ?_, fun hend => ?_⟩
  · rcases hinv.signal with hzero | ⟨-, hfull⟩
    · rw [hsignal] at hzero
      exact absurd hzero one_ne_zero
    · have hserved : ∀ i, 6 < st.pc (.customer i) := fun i =>
        lt_trans (by omega) (past_write_of_full (hleft ▸ hfull) i)
      exact ⟨hfull, hserved, taken_of_served hr hserved⟩
  · have hwrites := total_of_ended (x := .act .writeLeft) hr hend (by decide) (by decide)
      (by decide)
    rcases hinv.noticed (hinv.leftNum_eq.trans hwrites) with hsignal | ⟨i, hi⟩
    · exact hsignal
    · rw [hend i] at hi
      exact absurd hi (by decide)

theorem signals_when_served_oneEach : ∃ st, run oneEach serveOne = some st ∧
    st.mem.leftNum = left st ∧ st.mem.terminateSignal = 1 ∧ printed st .take = 1 := by
  have hany : (run oneEach serveOne).any
      (fun st => ∀ i, st.pc (.customer i) = customFunc.body.length) = true := by decide
  rcases (Option.any_eq_true _ _).mp hany with ⟨st, hst, hall⟩
  have hend : ∀ i, st.pc (.customer i) = customFunc.body.length := of_decide_eq_true hall
  rcases signals_when_served oneEach serveOne st hst with ⟨hleft, -, hserved, hsignal⟩
  exact ⟨st, hst, hleft, hsignal hend, (hserved (hsignal hend)).2.2⟩

end BurgerBuddies
