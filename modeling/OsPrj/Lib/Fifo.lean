import Mathlib.Data.List.Nodup

/-!
# Waiting in a queue

Who stands in front of a member of a queue, and which edits let nobody overtake it.

* `inFront b l` — the members in front of the first `b`.
* `NotOvertaken b l l'` — `b` stays in the queue and **nobody gets in front of it**.  Removals of
  others and insertions at the end are such edits, and so are their compositions.
-/

namespace Fifo

variable {α : Type} [DecidableEq α] {a b x : α} {l l' l'' : List α}

/-- What stands in front of `b`; everything, where `b` is not in the queue. -/
def inFront (b : α) : List α → List α
  | [] => []
  | a :: l => if a = b then [] else a :: inFront b l

lemma inFront_self (b : α) (l : List α) : inFront b (b :: l) = [] := if_pos rfl

lemma inFront_cons (hne : a ≠ b) (l : List α) : inFront b (a :: l) = a :: inFront b l :=
  if_neg hne

/-- The head of the queue is in front of every other member. -/
lemma head_mem_inFront (hne : a ≠ b) (l : List α) : a ∈ inFront b (a :: l) := by
  simp [inFront_cons hne]

/-- Whoever else is removed, nobody gets in front. -/
lemma inFront_erase_subset (hne : x ≠ b) : ∀ l : List α, inFront b (l.erase x) ⊆ inFront b l
  | [] => by simp
  | a :: l => by
      have ih := inFront_erase_subset hne l
      rcases eq_or_ne a x with rfl | hax
      · simp [inFront_cons hne]
      · rw [List.erase_cons_tail (by simpa using hax), inFront, inFront]
        split_ifs
        · exact List.Subset.refl []
        · exact List.cons_subset_cons a ih

/-- Whatever is put at the end, nobody gets in front. -/
lemma inFront_append (l' : List α) : ∀ l : List α, b ∈ l → inFront b (l ++ l') = inFront b l
  | a :: l, hb => by
      rw [List.cons_append, inFront, inFront]
      split_ifs with hab
      · rfl
      · have ih := inFront_append l' l (List.mem_of_ne_of_mem (Ne.symm hab) hb)
        rw [ih]

lemma inFront_append_of_notMem (hb : b ∉ l) (l' : List α) :
    inFront b (l ++ l') = l ++ inFront b l' := by
  induction l with
  | nil => rfl
  | cons a l ih =>
      simp only [List.mem_cons, not_or] at hb
      rw [List.cons_append, inFront_cons (Ne.symm hb.1), ih hb.2, List.cons_append]

lemma inFront_of_notMem (hb : b ∉ l) : inFront b l = l := by
  have happend := inFront_append_of_notMem hb []
  rwa [List.append_nil, inFront, List.append_nil] at happend

lemma notMem_inFront_concat (h : a ∉ inFront b l) (hne : x ≠ a) : a ∉ inFront b (l ++ [x]) := by
  by_cases hb : b ∈ l
  · rwa [inFront_append [x] l hb]
  · rw [inFront_of_notMem hb] at h
    rw [inFront_append_of_notMem hb, List.mem_append, not_or]
    refine ⟨h, fun hmem => ?_⟩
    rw [inFront] at hmem
    split_ifs at hmem
    · exact List.not_mem_nil hmem
    · exact hne (List.mem_singleton.mp hmem).symm

/-- Who comes later in a queue does not stand in front. -/
lemma notMem_inFront (hnodup : (l ++ b :: l' ++ a :: l'').Nodup) :
    a ∉ inFront b (l ++ b :: l' ++ a :: l'') := by
  rw [List.append_assoc, List.cons_append] at hnodup ⊢
  rcases List.nodup_append.mp hnodup with ⟨-, -, hdisjoint⟩
  have hb : b ∉ l := fun hmem => hdisjoint b hmem b List.mem_cons_self rfl
  rw [inFront_append_of_notMem hb, inFront_self, List.append_nil]
  exact fun hmem => hdisjoint a hmem a (by simp) rfl

/-- If `a` does not stand in front of `b`, there is a `b` in front of every `a`. -/
lemma mem_of_notMem_inFront (hne : a ≠ b) (h : a ∉ inFront b (l ++ a :: l')) : b ∈ l := by
  by_contra hb
  rw [inFront_append_of_notMem hb, inFront_cons hne] at h
  exact h (by simp)

/-- From `l` to `l'`, the member `b` has stayed and nobody has got in front of it. -/
def NotOvertaken (b : α) (l l' : List α) : Prop := b ∈ l → b ∈ l' ∧ inFront b l' ⊆ inFront b l

lemma NotOvertaken.refl (b : α) (l : List α) : NotOvertaken b l l :=
  fun hb => ⟨hb, List.Subset.refl _⟩

lemma NotOvertaken.trans (h : NotOvertaken b l l') (h' : NotOvertaken b l' l'') :
    NotOvertaken b l l'' := by
  intro hb
  rcases h hb with ⟨hmem, hsub⟩
  rcases h' hmem with ⟨hmem', hsub'⟩
  exact ⟨hmem', List.Subset.trans hsub' hsub⟩

lemma notOvertaken_erase (hne : x ≠ b) (l : List α) : NotOvertaken b l (l.erase x) :=
  fun hb => ⟨(List.mem_erase_of_ne hne.symm).mpr hb, inFront_erase_subset hne l⟩

lemma notOvertaken_append (b : α) (l l' : List α) : NotOvertaken b l (l ++ l') := by
  intro hb
  refine ⟨List.mem_append_left l' hb, ?_⟩
  rw [inFront_append l' l hb]
  exact List.Subset.refl _

end Fifo
