import Mathlib.Dynamics.PeriodicPts.Defs
import Mathlib.Algebra.Order.BigOperators.Group.List
import Mathlib.Algebra.Ring.Nat

/-!
# Weighted round robin

A queue of members, each with what is left of its slice; every member has a quantum of its own.

* `tick` — the head uses up one unit.  When its slice is used up it gets a new one and goes to the
  end.
* `iterate_tick_turn` — **the members come to the head one after the other**, each for as long as
  its slice lasts.
* `iterate_tick_round` — after one round the members stand as before, with full slices.
* `isPeriodicPt_tick` — from then on the queue is periodic.
-/

namespace RoundRobin

variable {α : Type} {q : α → ℕ}

/-- What is left of a slice; `0` stands for a whole quantum. -/
def left (q : α → ℕ) (x : α × ℕ) : ℕ := if x.2 = 0 then q x.1 else x.2

/-- The member with a full slice. -/
def full (q : α → ℕ) (x : α × ℕ) : α × ℕ := (x.1, q x.1)

/-- One unit of time. -/
def tick (q : α → ℕ) : List (α × ℕ) → List (α × ℕ)
  | [] => []
  | x :: l => if left q x = 1 then l ++ [full q x] else (x.1, left q x - 1) :: l

/-- The time until everybody has had its turn. -/
def load (q : α → ℕ) (l : List (α × ℕ)) : ℕ := (l.map (left q)).sum

@[simp] lemma load_nil : load q [] = 0 := rfl

@[simp] lemma load_cons (x : α × ℕ) (l : List (α × ℕ)) : load q (x :: l) = left q x + load q l := by
  simp [load]

@[simp] lemma left_full (x : α × ℕ) : left q (full q x) = q x.1 := by
  rw [left, full, ite_self]

lemma left_of_ne {x : α × ℕ} (hx : x.2 ≠ 0) : left q x = x.2 := if_neg hx

lemma left_pos (hq : ∀ a, 0 < q a) (x : α × ℕ) : 0 < left q x := by
  rw [left]
  split_ifs with hx
  · exact hq x.1
  · exact Nat.pos_of_ne_zero hx

lemma tick_of_eq {x : α × ℕ} (hx : left q x = 1) (l : List (α × ℕ)) :
    tick q (x :: l) = l ++ [full q x] := if_pos hx

lemma tick_of_ne {x : α × ℕ} (hx : left q x ≠ 1) (l : List (α × ℕ)) :
    tick q (x :: l) = (x.1, left q x - 1) :: l := if_neg hx

/-- Nobody comes or goes. -/
lemma tick_map_fst_perm (l : List (α × ℕ)) : ((tick q l).map Prod.fst).Perm (l.map Prod.fst) := by
  cases l with
  | nil => rfl
  | cons x l =>
      rw [tick]
      split_ifs
      · rw [List.map_append, List.map_cons, List.map_nil, full]
        exact List.perm_append_singleton _ _
      · rfl

/-- No slice grows beyond the quanta. -/
lemma left_tick_lt {n : ℕ} (hq : ∀ a, q a < n) {l : List (α × ℕ)} (hl : ∀ x ∈ l, left q x < n) :
    ∀ x ∈ tick q l, left q x < n := by
  cases l with
  | nil => exact hl
  | cons x l =>
      have hx := hl x List.mem_cons_self
      intro y hy
      rw [tick] at hy
      split_ifs at hy with hlast
      · rcases List.mem_append.mp hy with hy | hy
        · exact hl y (List.mem_cons_of_mem x hy)
        · rw [List.mem_singleton.mp hy, left_full]
          exact hq x.1
      · rcases List.mem_cons.mp hy with rfl | hy
        · rw [left]
          split_ifs
          · exact hq x.1
          · exact (Nat.sub_le _ _).trans_lt hx
        · exact hl y (List.mem_cons_of_mem x hy)

/-! ## One turn -/

/-- The head stays while its slice lasts. -/
lemma iterate_tick_lt (x : α × ℕ) (l : List (α × ℕ)) :
    ∀ k, k < left q x → ∃ n, (tick q)^[k] (x :: l) = (x.1, n) :: l ∧
      left q (x.1, n) = left q x - k
  | 0, _ => ⟨x.2, rfl, rfl⟩
  | k + 1, hk => by
      rcases iterate_tick_lt x l k (by omega) with ⟨n, hn, hleft⟩
      rw [Function.iterate_succ_apply', hn, tick_of_ne (by omega), hleft]
      refine ⟨_, rfl, ?_⟩
      rw [left_of_ne (show left q x - k - 1 ≠ 0 by omega)]
      exact Nat.sub_sub _ _ _

/-- Then it goes to the end with a new one. -/
lemma iterate_tick_left (hq : ∀ a, 0 < q a) (x : α × ℕ) (l : List (α × ℕ)) :
    (tick q)^[left q x] (x :: l) = l ++ [full q x] := by
  have hpos := left_pos hq x
  rcases iterate_tick_lt (q := q) x l (left q x - 1) (by omega) with ⟨n, hn, hleft⟩
  have hlast : left q (x.1, n) = 1 := by omega
  calc (tick q)^[left q x] (x :: l) = tick q ((tick q)^[left q x - 1] (x :: l)) := by
        rw [← Function.iterate_succ_apply' (tick q), Nat.succ_eq_add_one, Nat.sub_add_cancel hpos]
    _ = l ++ [full q x] := by
        rw [hn, tick_of_eq hlast]
        rfl

/-! ## Rounds -/

/-- **The members in front have had their turns** when the time of their slices has passed. -/
theorem iterate_tick_append (hq : ∀ a, 0 < q a) :
    ∀ l l' : List (α × ℕ), (tick q)^[load q l] (l ++ l') = l' ++ l.map (full q)
  | [], l' => by simp
  | x :: l, l' => by
      rw [load_cons, add_comm, Function.iterate_add_apply, List.cons_append,
        iterate_tick_left hq, List.append_assoc, iterate_tick_append hq l, List.map_cons,
        List.append_assoc]
      rfl

/-- **Everybody is at the head while its own slice lasts.** -/
theorem iterate_tick_turn (hq : ∀ a, 0 < q a) (l : List (α × ℕ)) (x : α × ℕ) (l' : List (α × ℕ))
    {k : ℕ} (hk : load q l ≤ k) (hk' : k < load q l + left q x) :
    ∃ n, (tick q)^[k] (l ++ x :: l') = (x.1, n) :: (l' ++ l.map (full q)) := by
  have hlt : k - load q l < left q x := by omega
  rcases iterate_tick_lt x (l' ++ l.map (full q)) (k - load q l) hlt with ⟨n, hn, -⟩
  refine ⟨n, ?_⟩
  rw [← hn, ← List.cons_append, ← iterate_tick_append hq l (x :: l'), ← Function.iterate_add_apply,
    Nat.sub_add_cancel hk]

/-- **After one round the order is the same, and the slices are full.** -/
theorem iterate_tick_round (hq : ∀ a, 0 < q a) (l : List (α × ℕ)) :
    (tick q)^[load q l] l = l.map (full q) := by
  have hround := iterate_tick_append hq l []
  rwa [List.append_nil, List.nil_append] at hround

lemma map_full_full (l : List (α × ℕ)) : (l.map (full q)).map (full q) = l.map (full q) := by
  rw [List.map_map]
  rfl

/-- **With full slices every round is the same.** -/
theorem isPeriodicPt_tick (hq : ∀ a, 0 < q a) (l : List (α × ℕ)) :
    Function.IsPeriodicPt (tick q) (load q (l.map (full q))) (l.map (full q)) := by
  have hround := iterate_tick_round hq (l.map (full q))
  rwa [map_full_full] at hround

end RoundRobin
