import Mathlib.GroupTheory.Perm.List

/-!
# Intrusive circular lists

The kernel's `struct list_head`: a memory of `next`/`prev` words over an arbitrary type of
addresses, and the operations of `<linux/list.h>` on it, word by word.

* `Links.Models` — the memory is well formed when `next` is a permutation of the addresses and
  `prev` is its inverse.
* On well-formed memories every operation is **multiplication by a transposition**:
  `models_listAddTail`, `models_listAdd`, `models_listDelInit`.
* `Ring σ h l` — the circular list with head `h` visits exactly `l`; the permutation agrees with
  `List.formPerm` on it.  Insertion and removal on the transposition side are `++ [x]`, `x ::`
  and `List.erase` on the list side (`Ring.addTail`, `Ring.add`, `Ring.del`).
* `Represents` — a family of such lists, one for each head, that share no member.  This is the
  form a client uses: each operation updates one list of the family.
* `Links.SameOn` — two memories with the same words where it matters; an entry that has been taken
  off a list without `list_del_init` keeps words that nobody reads.
* `forEachFrom` — a loop over the members of a list, which is a fold (`forEachFrom_eq`).
-/

namespace ListHead

/-! ## Memory and operations -/

/-- The words of every `struct list_head` in memory. -/
structure Links (A : Type) where
  next : A → A
  prev : A → A

section Operations

variable {A : Type} [DecidableEq A]

/-- `INIT_LIST_HEAD` -/
def initListHead (L : Links A) (a : A) : Links A :=
  { next := Function.update L.next a a, prev := Function.update L.prev a a }

/-- `__list_add`: link `new` between two consecutive entries. -/
def listAddBetween (L : Links A) (new prev next : A) : Links A :=
  { next := Function.update (Function.update L.next new next) prev new
    prev := Function.update (Function.update L.prev next new) new prev }

/-- `list_add` -/
def listAdd (L : Links A) (new head : A) : Links A :=
  listAddBetween L new head (L.next head)

/-- `list_add_tail` -/
def listAddTail (L : Links A) (new head : A) : Links A :=
  listAddBetween L new (L.prev head) head

/-- `__list_del(entry->prev, entry->next)`: the entry's own words are left as they were. -/
def listDelEntry (L : Links A) (entry : A) : Links A :=
  { next := Function.update L.next (L.prev entry) (L.next entry)
    prev := Function.update L.prev (L.next entry) (L.prev entry) }

/-- `list_del_init` -/
def listDelInit (L : Links A) (entry : A) : Links A :=
  initListHead (listDelEntry L entry) entry

/-- `list_move` -/
def listMove (L : Links A) (entry head : A) : Links A :=
  listAdd (listDelEntry L entry) entry head

/-- `list_move_tail` -/
def listMoveTail (L : Links A) (entry head : A) : Links A :=
  listAddTail (listDelEntry L entry) entry head

/-- `list_empty` -/
def listEmpty (L : Links A) (head : A) : Bool := decide (L.next head = head)

end Operations

/-- Following `next` from `a` visits `l` and then comes to `stop`. -/
def Visits {A : Type} (L : Links A) (stop : A) : A → List A → Prop
  | a, [] => L.next a = stop
  | a, x :: l => L.next a = x ∧ Visits L stop x l

instance Visits.decidable {A : Type} [DecidableEq A] (L : Links A) (stop : A) :
    ∀ (a : A) (l : List A), Decidable (Visits L stop a l)
  | a, [] => inferInstanceAs (Decidable (L.next a = stop))
  | a, x :: l =>
      have := Visits.decidable L stop x l
      inferInstanceAs (Decidable (L.next a = x ∧ Visits L stop x l))

/-- What is visited before the stop is determined. -/
lemma Visits.unique {A : Type} {L : Links A} {stop : A} :
    ∀ {l l' : List A} {a : A}, Visits L stop a l → Visits L stop a l' → stop ∉ l → stop ∉ l' →
      l = l'
  | [], [], _, _, _, _, _ => rfl
  | [], _ :: _, _, h, h', _, hl' => absurd (h.symm.trans h'.1 ▸ List.mem_cons_self) hl'
  | _ :: _, [], _, h, h', hl, _ => absurd (h'.symm.trans h.1 ▸ List.mem_cons_self) hl
  | x :: l, y :: l', _, h, h', hl, hl' => by
      obtain rfl : x = y := h.1.symm.trans h'.1
      rw [h.2.unique h'.2 (List.not_mem_of_not_mem_cons hl) (List.not_mem_of_not_mem_cons hl')]

/-! ## Well-formed memories are permutations -/

section Models

variable {A : Type}

/-- `next` is the permutation `σ` and `prev` its inverse. -/
structure Links.Models (L : Links A) (σ : Equiv.Perm A) : Prop where
  next_eq : ∀ a, L.next a = σ a
  prev_eq : ∀ a, L.prev a = σ.symm a

variable [DecidableEq A] {L : Links A} {σ : Equiv.Perm A}

/-- Linking a self-linked entry before `head` multiplies by a transposition on the left. -/
theorem models_listAddTail (hL : L.Models σ) {x h : A} (hx : σ x = x) (hne : x ≠ h) :
    (listAddTail L x h).Models (Equiv.swap x h * σ) := by
  have hx' : σ.symm x = x := by rw [Equiv.symm_apply_eq, hx]
  have hp : σ.symm h ≠ x := by
    intro he
    rw [Equiv.symm_apply_eq, hx] at he
    exact hne he.symm
  constructor
  · intro a
    simp only [listAddTail, listAddBetween, hL.next_eq, hL.prev_eq, Equiv.Perm.mul_apply,
      Function.update_apply]
    by_cases ha : a = σ.symm h
    · rw [if_pos ha, ha, Equiv.apply_symm_apply, Equiv.swap_apply_right]
    · rw [if_neg ha]
      by_cases hax : a = x
      · rw [if_pos hax, hax, hx, Equiv.swap_apply_left]
      · rw [if_neg hax, Equiv.swap_apply_of_ne_of_ne]
        · intro he
          exact hax (σ.injective (he.trans hx.symm))
        · intro he
          exact ha (by rw [← he, Equiv.symm_apply_apply])
  · intro a
    have hsymm : (Equiv.swap x h * σ).symm a = σ.symm (Equiv.swap x h a) := rfl
    simp only [listAddTail, listAddBetween, hL.prev_eq, Function.update_apply, hsymm]
    by_cases hax : a = x
    · rw [if_pos hax, hax, Equiv.swap_apply_left]
    · rw [if_neg hax]
      by_cases hah : a = h
      · rw [if_pos hah, hah, Equiv.swap_apply_right, hx']
      · rw [if_neg hah, Equiv.swap_apply_of_ne_of_ne hax hah]

/-- Linking a self-linked entry after `head` multiplies by a transposition on the right. -/
theorem models_listAdd (hL : L.Models σ) {x h : A} (hx : σ x = x) :
    (listAdd L x h).Models (σ * Equiv.swap h x) := by
  have hx' : σ.symm x = x := by rw [Equiv.symm_apply_eq, hx]
  constructor
  · intro a
    simp only [listAdd, listAddBetween, hL.next_eq, Equiv.Perm.mul_apply, Function.update_apply]
    by_cases hah : a = h
    · rw [if_pos hah, hah, Equiv.swap_apply_left, hx]
    · rw [if_neg hah]
      by_cases hax : a = x
      · rw [if_pos hax, hax, Equiv.swap_apply_right]
      · rw [if_neg hax, Equiv.swap_apply_of_ne_of_ne hah hax]
  · intro a
    have hsymm : (σ * Equiv.swap h x).symm a = Equiv.swap h x (σ.symm a) := by
      simp [Equiv.Perm.mul_def]
    simp only [listAdd, listAddBetween, hL.next_eq, hL.prev_eq, Function.update_apply, hsymm]
    by_cases hax : a = x
    · rw [if_pos hax, hax, hx', Equiv.swap_apply_right]
    · rw [if_neg hax]
      by_cases hah : a = σ h
      · rw [if_pos hah, hah, Equiv.symm_apply_apply, Equiv.swap_apply_left]
      · rw [if_neg hah, Equiv.swap_apply_of_ne_of_ne]
        · intro he
          exact hah (by rw [← he, Equiv.apply_symm_apply])
        · intro he
          rw [Equiv.symm_apply_eq, hx] at he
          exact hax he

/-- Unlinking an entry multiplies by the transposition of the entry and its successor. -/
theorem models_listDelInit (hL : L.Models σ) (x : A) :
    (listDelInit L x).Models (Equiv.swap x (σ x) * σ) := by
  constructor
  · intro a
    simp only [listDelInit, listDelEntry, initListHead, hL.next_eq, hL.prev_eq,
      Equiv.Perm.mul_apply, Function.update_apply]
    by_cases hax : a = x
    · rw [if_pos hax, hax, Equiv.swap_apply_right]
    · rw [if_neg hax]
      by_cases hap : a = σ.symm x
      · rw [if_pos hap, hap, Equiv.apply_symm_apply, Equiv.swap_apply_left]
      · rw [if_neg hap, Equiv.swap_apply_of_ne_of_ne]
        · intro he
          exact hap (by rw [← he, Equiv.symm_apply_apply])
        · intro he
          exact hax (σ.injective he)
  · intro a
    have hsymm : (Equiv.swap x (σ x) * σ).symm a = σ.symm (Equiv.swap x (σ x) a) := rfl
    simp only [listDelInit, listDelEntry, initListHead, hL.next_eq, hL.prev_eq,
      Function.update_apply, hsymm]
    by_cases hax : a = x
    · rw [if_pos hax, hax, Equiv.swap_apply_left, Equiv.symm_apply_apply]
    · rw [if_neg hax]
      by_cases han : a = σ x
      · rw [if_pos han, han, Equiv.swap_apply_right]
      · rw [if_neg han, Equiv.swap_apply_of_ne_of_ne hax han]

/-- `list_move_tail` is `list_del_init` followed by `list_add_tail`: the stale words of the
entry are overwritten. -/
theorem listMoveTail_eq (L : Links A) {x h : A} (hne : x ≠ h) :
    listMoveTail L x h = listAddTail (listDelInit L x) x h := by
  have hprev : (listDelEntry L x).prev h = (listDelInit L x).prev h := by
    simp [listDelInit, initListHead, hne.symm]
  simp only [listMoveTail, listAddTail, listAddBetween, hprev]
  congr 1
  · funext a
    simp only [listDelInit, initListHead, Function.update_apply]
    split_ifs <;> rfl
  · funext a
    simp only [listDelInit, initListHead, Function.update_apply]
    split_ifs <;> rfl

/-- `list_move` is `list_del_init` followed by `list_add`. -/
theorem listMove_eq (L : Links A) {x h : A} (hne : x ≠ h) :
    listMove L x h = listAdd (listDelInit L x) x h := by
  have hnext : (listDelEntry L x).next h = (listDelInit L x).next h := by
    simp [listDelInit, initListHead, hne.symm]
  simp only [listMove, listAdd, listAddBetween, hnext]
  congr 1
  · funext a
    simp only [listDelInit, initListHead, Function.update_apply]
    split_ifs <;> rfl
  · funext a
    simp only [listDelInit, initListHead, Function.update_apply]
    split_ifs <;> rfl

end Models

/-! ## One circular list -/

section Ring

variable {A : Type} [DecidableEq A] {σ : Equiv.Perm A} {h x : A} {l : List A}

/-- The circular list with head `h` visits exactly the entries `l`, in this order. -/
structure Ring (σ : Equiv.Perm A) (h : A) (l : List A) : Prop where
  nodup : (h :: l).Nodup
  apply_eq : ∀ a ∈ h :: l, σ a = (h :: l).formPerm a

lemma Ring.apply_mem (hr : Ring σ h l) {a : A} (ha : a ∈ h :: l) : σ a ∈ h :: l := by
  rw [hr.apply_eq a ha]
  exact List.formPerm_apply_mem_of_mem ha

/-- A rotation of `h :: l` forms the same permutation. -/
lemma formPerm_rotate_mid (a x : A) (l₁ l₂ : List A) (hnd : (a :: (l₁ ++ x :: l₂)).Nodup) :
    (a :: (l₁ ++ x :: l₂)).formPerm = (x :: (l₂ ++ a :: l₁)).formPerm := by
  refine List.formPerm_eq_of_isRotated hnd ⟨(a :: l₁).length, ?_⟩
  have h := List.rotate_append_length_eq (a :: l₁) (x :: l₂)
  simp only [List.cons_append] at h
  exact h

theorem Ring.nil_of_fixed (hx : σ h = h) : Ring σ h [] :=
  ⟨List.nodup_singleton h, by simp [hx]⟩

theorem Ring.addTail (hr : Ring σ h l) (hx : σ x = x) (hmem : x ∉ h :: l) :
    Ring (Equiv.swap x h * σ) h (l ++ [x]) := by
  have hnd : (h :: (l ++ [x])).Nodup := by
    rw [← List.cons_append, List.nodup_append]
    exact ⟨hr.nodup, List.nodup_singleton x, by
      intro a ha b hb he
      rw [List.mem_singleton] at hb
      exact hmem (hb ▸ he ▸ ha)⟩
  refine ⟨hnd, fun a ha => ?_⟩
  rw [formPerm_rotate_mid h x l [] hnd, List.nil_append, List.formPerm_cons_cons,
    Equiv.Perm.mul_apply, Equiv.Perm.mul_apply]
  congr 1
  rw [← List.cons_append, List.mem_append, List.mem_singleton] at ha
  rcases ha with ha | rfl
  · exact hr.apply_eq a ha
  · rw [hx, List.formPerm_apply_of_notMem hmem]

theorem Ring.add (hr : Ring σ h l) (hx : σ x = x) (hmem : x ∉ h :: l) :
    Ring (σ * Equiv.swap h x) h (x :: l) := by
  have hnd : (h :: x :: l).Nodup := by
    simp only [List.nodup_cons, List.mem_cons, not_or] at hmem ⊢
    have hrn := List.nodup_cons.mp hr.nodup
    exact ⟨⟨fun he => hmem.1 he.symm, hrn.1⟩, hmem.2, hrn.2⟩
  have hform : (h :: x :: l).formPerm = (h :: l).formPerm * Equiv.swap h x := by
    have hnd₂ : (h :: (x :: l)).Nodup := hnd
    have h₁ : (h :: x :: l).formPerm = (l ++ [h, x]).formPerm := by
      refine List.formPerm_eq_of_isRotated hnd ⟨2, ?_⟩
      simp
    have h₂ : (h :: l).formPerm = (l ++ [h]).formPerm := by
      refine List.formPerm_eq_of_isRotated hr.nodup ⟨1, ?_⟩
      simp
    rw [h₁, List.formPerm_append_pair, ← h₂]
  refine ⟨hnd, fun a ha => ?_⟩
  rw [hform, Equiv.Perm.mul_apply, Equiv.Perm.mul_apply]
  by_cases hax : a = x
  · subst hax
    rw [Equiv.swap_apply_right]
    exact hr.apply_eq h (by simp)
  · by_cases hah : a = h
    · subst hah
      rw [Equiv.swap_apply_left, hx, List.formPerm_apply_of_notMem hmem]
    · rw [Equiv.swap_apply_of_ne_of_ne hah hax]
      refine hr.apply_eq a ?_
      simp only [List.mem_cons] at ha ⊢
      tauto

theorem Ring.del (hr : Ring σ h l) (hmem : x ∈ l) :
    Ring (Equiv.swap x (σ x) * σ) h (l.erase x) := by
  obtain ⟨l₁, l₂, rfl⟩ := List.append_of_mem hmem
  have hnd := hr.nodup
  have hx₁ : x ∉ l₁ := by
    rw [← List.cons_append, List.nodup_append] at hnd
    intro hx
    exact hnd.2.2 x (by simp [hx]) x (by simp) rfl
  have herase : (l₁ ++ x :: l₂).erase x = l₁ ++ l₂ := by
    rw [List.erase_append_right _ hx₁, List.erase_cons_head]
  rw [herase]
  have hsub : (h :: (l₁ ++ l₂)).Sublist (h :: (l₁ ++ x :: l₂)) := by simp
  refine ⟨hnd.sublist hsub, fun a ha => ?_⟩
  have hrot := formPerm_rotate_mid h x l₁ l₂ hnd
  have hσx := hr.apply_eq x (by simp)
  have hσa := hr.apply_eq a (hsub.subset ha)
  rw [Equiv.Perm.mul_apply, hσa, hσx, hrot]
  -- the rotated ring starts `x, y, …`: removing `x` strips the first transposition
  cases l₂ with
  | nil =>
      have hxh : (x :: ([] ++ h :: l₁)).formPerm x = h :=
        List.formPerm_apply_head x h l₁ (by
          have := (List.nodup_rotate (n := (h :: l₁).length)).mpr hnd
          simpa using this)
      rw [hxh, List.append_nil, List.nil_append, List.formPerm_cons_cons, Equiv.Perm.mul_apply,
        Equiv.swap_apply_self]
  | cons y l₂ =>
      have hnd' : (x :: y :: (l₂ ++ h :: l₁)).Nodup := by
        have := (List.nodup_rotate (n := (h :: l₁).length)).mpr hnd
        have hr := List.rotate_append_length_eq (h :: l₁) (x :: y :: l₂)
        simp only [List.cons_append] at hr
        rw [hr] at this
        simpa using this
      have hxy : (x :: (y :: l₂ ++ h :: l₁)).formPerm x = y :=
        List.formPerm_apply_head x y _ hnd'
      rw [hxy, List.cons_append, List.formPerm_cons_cons, Equiv.Perm.mul_apply,
        Equiv.swap_apply_self]
      rw [formPerm_rotate_mid h y l₁ l₂ (hnd.sublist hsub)]

/-- A transposition of two entries outside a ring, on the left, leaves the ring alone. -/
theorem Ring.swap_mul (hr : Ring σ h l) {a b : A} (ha : a ∉ h :: l) (hb : b ∉ h :: l) :
    Ring (Equiv.swap a b * σ) h l := by
  refine ⟨hr.nodup, fun c hc => ?_⟩
  have hσc := hr.apply_mem hc
  rw [Equiv.Perm.mul_apply, Equiv.swap_apply_of_ne_of_ne, hr.apply_eq c hc]
  · intro he
    exact ha (he ▸ hσc)
  · intro he
    exact hb (he ▸ hσc)

/-- The same for a transposition on the right. -/
theorem Ring.mul_swap (hr : Ring σ h l) {a b : A} (ha : a ∉ h :: l) (hb : b ∉ h :: l) :
    Ring (σ * Equiv.swap a b) h l := by
  refine ⟨hr.nodup, fun c hc => ?_⟩
  rw [Equiv.Perm.mul_apply, Equiv.swap_apply_of_ne_of_ne, hr.apply_eq c hc]
  · intro he
    exact ha (he ▸ hc)
  · intro he
    exact hb (he ▸ hc)

/-! ### What a reader of the list sees -/

lemma Ring.apply_head_nil (hr : Ring σ h []) : σ h = h := by
  rw [hr.apply_eq h (by simp), List.formPerm_singleton]
  rfl

lemma Ring.apply_head_cons (hr : Ring σ h (x :: l)) : σ h = x := by
  rw [hr.apply_eq h (by simp)]
  exact List.formPerm_apply_head h x l hr.nodup

lemma Ring.apply_head_eq_iff (hr : Ring σ h l) : σ h = h ↔ l = [] := by
  cases l with
  | nil => simp [hr.apply_head_nil]
  | cons y l =>
      rw [hr.apply_head_cons]
      have hne : y ≠ h := fun he => (List.nodup_cons.mp hr.nodup).1 (by simp [he])
      simp [hne]

/-- The entry after an inner one. -/
lemma Ring.apply_mid {y : A} {l₁ l₂ : List A} (hr : Ring σ h (l₁ ++ x :: y :: l₂)) :
    σ x = y := by
  have hnd := hr.nodup
  rw [hr.apply_eq x (by simp), formPerm_rotate_mid h x l₁ (y :: l₂) hnd]
  refine List.formPerm_apply_head x y _ ?_
  have := (List.nodup_rotate (n := (h :: l₁).length)).mpr hnd
  have hrot := List.rotate_append_length_eq (h :: l₁) (x :: y :: l₂)
  simp only [List.cons_append] at hrot
  rw [hrot] at this
  simpa using this

/-- The last entry leads back to the head. -/
lemma Ring.apply_last {l₁ : List A} (hr : Ring σ h (l₁ ++ [x])) : σ x = h := by
  rw [hr.apply_eq x (by simp)]
  exact List.formPerm_cons_concat_apply_last h x l₁

/-- An entry of a ring is linked to something else. -/
lemma Ring.apply_ne_self (hr : Ring σ h l) (hx : x ∈ l) : σ x ≠ x := by
  rw [hr.apply_eq x (List.mem_cons_of_mem h hx),
    List.formPerm_apply_mem_ne_self_iff _ hr.nodup x (List.mem_cons_of_mem h hx)]
  have := List.length_pos_of_mem hx
  simp only [List.length_cons]
  omega

/-- **The "only element" test.**  The two neighbours of an entry coincide exactly when it is
alone in its list: then both are the head. -/
theorem Ring.symm_ne_apply_iff (hr : Ring σ h l) (hx : x ∈ l) :
    σ.symm x ≠ σ x ↔ 2 ≤ l.length := by
  have hmem : x ∈ h :: l := List.mem_cons_of_mem h hx
  have hiff : σ.symm x ≠ σ x ↔ σ (σ x) ≠ x := by
    rw [ne_eq, Equiv.symm_apply_eq, eq_comm]
  rw [hiff, hr.apply_eq x hmem, hr.apply_eq _ (List.formPerm_apply_mem_of_mem hmem)]
  obtain ⟨i, hi, rfl⟩ := List.mem_iff_getElem.mp hmem
  have hpow := List.formPerm_pow_apply_getElem (h :: l) hr.nodup 2 i hi
  rw [pow_two, Equiv.Perm.mul_apply] at hpow
  rw [hpow, ne_eq, hr.nodup.getElem_inj_iff]
  simp only [List.length_cons] at hi ⊢
  have hpos := List.length_pos_of_mem hx
  constructor
  · intro hne
    by_contra hlt
    have hlen : l.length = 1 := by omega
    exact hne (by rw [hlen] at hi ⊢; omega)
  · intro hlen he
    rcases Nat.lt_or_ge (i + 2) (l.length + 1) with hlt | hge
    · rw [Nat.mod_eq_of_lt hlt] at he
      omega
    · rw [Nat.mod_eq_sub_mod hge, Nat.mod_eq_of_lt (by omega)] at he
      omega

end Ring

/-! ## A family of lists -/

/-- The address of a list head, or of the entry embedded in a member. -/
inductive Node (H M : Type) where
  | head (h : H)
  | node (m : M)
  deriving DecidableEq

section Family

variable {H M : Type}

lemma node_mem_ring_iff {h : H} {l : List M} {m : M} :
    Node.node m ∈ Node.head h :: l.map Node.node ↔ m ∈ l := by
  simp

lemma head_notMem_ring {h h' : H} {l : List M} (hne : h ≠ h') :
    Node.head h ∉ Node.head h' :: l.map Node.node := by
  simp [hne]

variable [DecidableEq H] [DecidableEq M]

/-- The permutation holds one ring for each head; no two rings share a member, and an entry in
no ring is linked to itself. -/
structure Family (σ : Equiv.Perm (Node H M)) (lists : H → List M) : Prop where
  ring : ∀ h, Ring σ (.head h) ((lists h).map .node)
  disjoint : ∀ {h h' m}, m ∈ lists h → m ∈ lists h' → h = h'
  free : ∀ {m}, (∀ h, m ∉ lists h) → σ (.node m) = .node m

variable {σ : Equiv.Perm (Node H M)} {lists : H → List M} {L : Links (Node H M)}

lemma map_erase_node (l : List M) (m : M) :
    (l.erase m).map (Node.node (H := H)) = (l.map Node.node).erase (Node.node m) :=
  List.map_erase (fun _ _ he => Node.node.inj he) l

theorem Family.addTail (hf : Family σ lists) {m : M} (hm : ∀ h, m ∉ lists h) (h : H) :
    Family (Equiv.swap (.node m) (.head h) * σ)
      (Function.update lists h (lists h ++ [m])) := by
  have hfix := hf.free hm
  refine ⟨fun h' => ?_, fun {h₁ h₂ m'} h₁m h₂m => ?_, fun {m'} hm' => ?_⟩
  · by_cases he : h' = h
    · subst he
      rw [Function.update_self, List.map_append]
      exact (hf.ring h').addTail hfix (by rw [node_mem_ring_iff]; exact hm h')
    · rw [Function.update_of_ne he]
      exact (hf.ring h').swap_mul (by rw [node_mem_ring_iff]; exact hm h')
        (head_notMem_ring (Ne.symm he))
  · simp only [Function.update_apply] at h₁m h₂m
    split_ifs at h₁m h₂m with e₁ e₂ e₂
    · rw [e₁, e₂]
    · rw [List.mem_append, List.mem_singleton] at h₁m
      rcases h₁m with h₁m | rfl
      · exact absurd (hf.disjoint h₂m h₁m) e₂
      · exact absurd h₂m (hm h₂)
    · rw [List.mem_append, List.mem_singleton] at h₂m
      rcases h₂m with h₂m | rfl
      · exact absurd (hf.disjoint h₁m h₂m) e₁
      · exact absurd h₁m (hm h₁)
    · exact hf.disjoint h₁m h₂m
  · have hne : m' ≠ m := by
      rintro rfl
      exact hm' h (by simp)
    have hfree : ∀ h', m' ∉ lists h' := by
      intro h' hmem
      refine hm' h' ?_
      by_cases he : h' = h
      · subst he; simp [hmem]
      · simpa [Function.update_of_ne he] using hmem
    rw [Equiv.Perm.mul_apply, hf.free hfree, Equiv.swap_apply_of_ne_of_ne]
    · simpa using hne
    · simp

theorem Family.add (hf : Family σ lists) {m : M} (hm : ∀ h, m ∉ lists h) (h : H) :
    Family (σ * Equiv.swap (.head h) (.node m)) (Function.update lists h (m :: lists h)) := by
  have hfix := hf.free hm
  refine ⟨fun h' => ?_, fun {h₁ h₂ m'} h₁m h₂m => ?_, fun {m'} hm' => ?_⟩
  · by_cases he : h' = h
    · subst he
      rw [Function.update_self, List.map_cons]
      exact (hf.ring h').add hfix (by rw [node_mem_ring_iff]; exact hm h')
    · rw [Function.update_of_ne he]
      exact (hf.ring h').mul_swap (head_notMem_ring (Ne.symm he))
        (by rw [node_mem_ring_iff]; exact hm h')
  · simp only [Function.update_apply] at h₁m h₂m
    split_ifs at h₁m h₂m with e₁ e₂ e₂
    · rw [e₁, e₂]
    · rcases List.mem_cons.mp h₁m with rfl | h₁m
      · exact absurd h₂m (hm h₂)
      · exact absurd (hf.disjoint h₂m h₁m) e₂
    · rcases List.mem_cons.mp h₂m with rfl | h₂m
      · exact absurd h₁m (hm h₁)
      · exact absurd (hf.disjoint h₁m h₂m) e₁
    · exact hf.disjoint h₁m h₂m
  · have hne : m' ≠ m := by
      rintro rfl
      exact hm' h (by simp)
    have hfree : ∀ h', m' ∉ lists h' := by
      intro h' hmem
      refine hm' h' ?_
      by_cases he : h' = h
      · subst he; simp [hmem]
      · simpa [Function.update_of_ne he] using hmem
    rw [Equiv.Perm.mul_apply, Equiv.swap_apply_of_ne_of_ne, hf.free hfree]
    · simp
    · simpa using hne

theorem Family.del (hf : Family σ lists) {m : M} {h : H} (hm : m ∈ lists h) :
    Family (Equiv.swap (.node m) (σ (.node m)) * σ)
      (Function.update lists h ((lists h).erase m)) := by
  have hnd : (lists h).Nodup :=
    List.Nodup.of_map _ (List.nodup_cons.mp (hf.ring h).nodup).2
  have hmem : Node.node m ∈ Node.head h :: (lists h).map Node.node := by
    rw [node_mem_ring_iff]
    exact hm
  refine ⟨fun h' => ?_, fun {h₁ h₂ m'} h₁m h₂m => ?_, fun {m'} hm' => ?_⟩
  · by_cases he : h' = h
    · subst he
      rw [Function.update_self, map_erase_node]
      exact (hf.ring h').del (List.mem_map_of_mem hm)
    · rw [Function.update_of_ne he]
      -- both transposed entries lie in the ring of `h`, hence in no other
      have hout : ∀ a ∈ Node.head h :: (lists h).map Node.node,
          a ∉ Node.head h' :: (lists h').map Node.node := by
        intro a ha ha'
        cases a with
        | head k =>
            simp only [List.mem_cons, Node.head.injEq, List.mem_map, reduceCtorEq, and_false,
              exists_false, or_false] at ha ha'
            exact he (ha'.symm.trans ha)
        | node k =>
            rw [node_mem_ring_iff] at ha ha'
            exact he (hf.disjoint ha' ha)
      exact (hf.ring h').swap_mul (hout _ hmem) (hout _ ((hf.ring h).apply_mem hmem))
  · have hsub : ∀ k, m' ∈ Function.update lists h ((lists h).erase m) k → m' ∈ lists k := by
      intro k hk
      by_cases he : k = h
      · subst he
        rw [Function.update_self] at hk
        exact List.mem_of_mem_erase hk
      · rwa [Function.update_of_ne he] at hk
    exact hf.disjoint (hsub _ h₁m) (hsub _ h₂m)
  · rw [Equiv.Perm.mul_apply]
    by_cases hmm : m' = m
    · subst hmm
      rw [Equiv.swap_apply_right]
    · have hfree : ∀ k, m' ∉ lists k := by
        intro k hk
        refine hm' k ?_
        by_cases he : k = h
        · subst he
          rw [Function.update_self]
          exact (List.mem_erase_of_ne hmm).mpr hk
        · rwa [Function.update_of_ne he]
      have hσm := (hf.ring h).apply_mem hmem
      rw [hf.free hfree, Equiv.swap_apply_of_ne_of_ne]
      · simpa using hmm
      · intro he
        rw [← he, node_mem_ring_iff] at hσm
        exact hfree h hσm

/-- **The memory holds the family `lists`**: one circular list for each head. -/
def Represents (L : Links (Node H M)) (lists : H → List M) : Prop :=
  ∃ σ, L.Models σ ∧ Family σ lists

/-- Every entry linked to itself: all lists are empty. -/
theorem represents_init :
    Represents (⟨fun a => a, fun a => a⟩ : Links (Node H M)) (fun _ => []) :=
  ⟨1, ⟨fun _ => rfl, fun _ => rfl⟩,
    fun _ => Ring.nil_of_fixed rfl, fun h => by simp at h, fun _ => rfl⟩

namespace Represents

theorem nodup (hr : Represents L lists) (h : H) : (lists h).Nodup := by
  obtain ⟨σ, -, hf⟩ := hr
  exact List.Nodup.of_map _ (List.nodup_cons.mp (hf.ring h).nodup).2

theorem disjoint (hr : Represents L lists) {h h' : H} {m : M} (hm : m ∈ lists h)
    (hm' : m ∈ lists h') : h = h' := by
  obtain ⟨σ, -, hf⟩ := hr
  exact hf.disjoint hm hm'

theorem addTail (hr : Represents L lists) {m : M} (hm : ∀ h, m ∉ lists h) (h : H) :
    Represents (listAddTail L (.node m) (.head h))
      (Function.update lists h (lists h ++ [m])) := by
  obtain ⟨σ, hL, hf⟩ := hr
  exact ⟨_, models_listAddTail hL (hf.free hm) (by simp), hf.addTail hm h⟩

theorem add (hr : Represents L lists) {m : M} (hm : ∀ h, m ∉ lists h) (h : H) :
    Represents (listAdd L (.node m) (.head h)) (Function.update lists h (m :: lists h)) := by
  obtain ⟨σ, hL, hf⟩ := hr
  exact ⟨_, models_listAdd hL (hf.free hm), hf.add hm h⟩

theorem delInit (hr : Represents L lists) {m : M} {h : H} (hm : m ∈ lists h) :
    Represents (listDelInit L (.node m)) (Function.update lists h ((lists h).erase m)) := by
  obtain ⟨σ, hL, hf⟩ := hr
  exact ⟨_, models_listDelInit hL _, hf.del hm⟩

/-- Initialising an entry that is in no list changes nothing. -/
theorem initListHead (hr : Represents L lists) {m : M} (hm : ∀ h, m ∉ lists h) :
    Represents (initListHead L (.node m)) lists := by
  obtain ⟨σ, hL, hf⟩ := hr
  have hfix := hf.free hm
  refine ⟨σ, ⟨fun a => ?_, fun a => ?_⟩, hf⟩
  · simp only [ListHead.initListHead, Function.update_apply]
    split_ifs with ha
    · rw [ha, hfix]
    · exact hL.next_eq a
  · simp only [ListHead.initListHead, Function.update_apply]
    split_ifs with ha
    · rw [ha, eq_comm, Equiv.symm_apply_eq, hfix]
    · exact hL.prev_eq a

/-- Initialising the head of an empty list changes nothing. -/
theorem initListHead_head (hr : Represents L lists) {h : H} (hl : lists h = []) :
    ListHead.initListHead L (.head h) = L := by
  obtain ⟨σ, hL, hf⟩ := hr
  have hring := hf.ring h
  rw [hl, List.map_nil] at hring
  have hfix : σ (.head h) = .head h := hring.apply_head_nil
  have hnext : L.next (.head h) = .head h := (hL.next_eq _).trans hfix
  have hprev : L.prev (.head h) = .head h := by
    rw [hL.prev_eq, Equiv.symm_apply_eq, hfix]
  cases L
  simp only [ListHead.initListHead] at hnext hprev ⊢
  rw [Function.update_eq_self_iff.mpr hnext.symm, Function.update_eq_self_iff.mpr hprev.symm]

/-- After an entry is unlinked it is in no list. -/
lemma notMem_after_del (hr : Represents L lists) {m : M} {h : H} (hm : m ∈ lists h) (k : H) :
    m ∉ Function.update lists h ((lists h).erase m) k := by
  by_cases he : k = h
  · subst he
    rw [Function.update_self]
    exact (hr.nodup k).not_mem_erase
  · rw [Function.update_of_ne he]
    exact fun hk => he (hr.disjoint hk hm)

theorem moveTail (hr : Represents L lists) {m : M} {h : H} (hm : m ∈ lists h) :
    Represents (listMoveTail L (.node m) (.head h))
      (Function.update lists h ((lists h).erase m ++ [m])) := by
  rw [listMoveTail_eq L (by simp)]
  have hadd := (hr.delInit hm).addTail (hr.notMem_after_del hm) h
  rwa [Function.update_self, Function.update_idem] at hadd

theorem move (hr : Represents L lists) {m : M} {h : H} (hm : m ∈ lists h) :
    Represents (listMove L (.node m) (.head h))
      (Function.update lists h (m :: (lists h).erase m)) := by
  rw [listMove_eq L (by simp)]
  have hadd := (hr.delInit hm).add (hr.notMem_after_del hm) h
  rwa [Function.update_self, Function.update_idem] at hadd

/-! ### Reading a represented memory -/

/-- The first word of a head: its first member, or itself. -/
theorem next_head (hr : Represents L lists) (h : H) :
    L.next (.head h) = ((lists h).head?.map Node.node).getD (.head h) := by
  obtain ⟨σ, hL, hf⟩ := hr
  have hring := hf.ring h
  rw [hL.next_eq]
  cases hl : lists h with
  | nil =>
      rw [hl, List.map_nil] at hring
      exact hring.apply_head_nil
  | cons m l =>
      rw [hl, List.map_cons] at hring
      exact hring.apply_head_cons

theorem next_mid (hr : Represents L lists) {h : H} {x y : M} {l₁ l₂ : List M}
    (hl : lists h = l₁ ++ x :: y :: l₂) : L.next (.node x) = .node y := by
  obtain ⟨σ, hL, hf⟩ := hr
  have hring := hf.ring h
  simp only [hl, List.map_append, List.map_cons] at hring
  rw [hL.next_eq]
  exact hring.apply_mid

theorem next_last (hr : Represents L lists) {h : H} {x : M} {l₁ : List M}
    (hl : lists h = l₁ ++ [x]) : L.next (.node x) = .head h := by
  obtain ⟨σ, hL, hf⟩ := hr
  have hring := hf.ring h
  simp only [hl, List.map_append, List.map_cons, List.map_nil] at hring
  rw [hL.next_eq]
  exact hring.apply_last

/-- The part of a list that follows its prefix `l₁`. -/
lemma visits_suffix (hr : Represents L lists) {h : H} :
    ∀ (l₂ l₁ : List M) {x : M}, lists h = l₁ ++ x :: l₂ →
      Visits L (.head h) (.node x) (l₂.map Node.node)
  | [], _, _, hl => hr.next_last hl
  | y :: l₂, l₁, x, hl =>
      ⟨hr.next_mid hl, visits_suffix hr l₂ (l₁ ++ [x]) (by rw [hl, List.append_cons])⟩

/-- **Following `next` from a head visits its list**, and then comes back. -/
theorem visits (hr : Represents L lists) (h : H) :
    Visits L (.head h) (.head h) ((lists h).map Node.node) := by
  have hnext := hr.next_head h
  cases hl : lists h with
  | nil =>
      rw [hl] at hnext
      exact hnext
  | cons x l =>
      rw [hl] at hnext
      exact ⟨hnext, hr.visits_suffix l [] hl⟩

theorem listEmpty_head (hr : Represents L lists) (h : H) :
    listEmpty L (.head h) = (lists h).isEmpty := by
  obtain ⟨σ, hL, hf⟩ := hr
  have hiff := (hf.ring h).apply_head_eq_iff
  rw [List.map_eq_nil_iff] at hiff
  rw [listEmpty, hL.next_eq, Bool.eq_iff_iff, decide_eq_true_iff, hiff, List.isEmpty_iff]

/-- `list_empty` on a member's own entry tells whether the member is in some list. -/
theorem listEmpty_node_of_mem (hr : Represents L lists) {h : H} {m : M} (hm : m ∈ lists h) :
    listEmpty L (.node m) = false := by
  obtain ⟨σ, hL, hf⟩ := hr
  rw [listEmpty, hL.next_eq, decide_eq_false_iff_not]
  exact (hf.ring h).apply_ne_self (List.mem_map_of_mem hm)

theorem listEmpty_node_of_notMem (hr : Represents L lists) {m : M} (hm : ∀ h, m ∉ lists h) :
    listEmpty L (.node m) = true := by
  obtain ⟨σ, hL, hf⟩ := hr
  rw [listEmpty, hL.next_eq, decide_eq_true_iff, hf.free hm]

/-- `entry.prev ≠ entry.next` tells whether a member shares its list with another one. -/
theorem prev_ne_next_iff (hr : Represents L lists) {h : H} {m : M} (hm : m ∈ lists h) :
    L.prev (.node m) ≠ L.next (.node m) ↔ 2 ≤ (lists h).length := by
  obtain ⟨σ, hL, hf⟩ := hr
  have hiff := (hf.ring h).symm_ne_apply_iff (List.mem_map_of_mem hm)
  rw [List.length_map] at hiff
  rw [hL.prev_eq, hL.next_eq, hiff]

theorem prev_eq_next_of_notMem (hr : Represents L lists) {m : M} (hm : ∀ h, m ∉ lists h) :
    L.prev (.node m) = L.next (.node m) := by
  obtain ⟨σ, hL, hf⟩ := hr
  rw [hL.prev_eq, hL.next_eq, Equiv.symm_apply_eq, hf.free hm, hf.free hm]

end Represents

/-! ### Loops over a list -/

/-- The loop `list_for_each_entry(pos, head, member)` from `pos` on.  There is no result without
fuel, nor where a list head would be read as a member. -/
def forEachFrom {S : Type} (L : Links (Node H M)) (h : H) (body : M → S → S) :
    ℕ → Node H M → S → Option S
  | 0, _, _ => none
  | _ + 1, .head h', s => if h' = h then some s else none
  | fuel + 1, .node m, s => forEachFrom L h body fuel (L.next (.node m)) (body m s)

omit [DecidableEq M] in
/-- **The loop is a fold over the members.** -/
theorem forEachFrom_eq {S : Type} {h : H} {body : M → S → S} :
    ∀ (l : List M) {a : Node H M} {fuel : ℕ} (s : S), Visits L (.head h) a (l.map .node) →
      l.length < fuel →
        forEachFrom L h body fuel (L.next a) s = some (l.foldl (fun s m => body m s) s)
  | [], a, fuel + 1, s, hv, _ => by
      have hnext : L.next a = .head h := hv
      rw [hnext, forEachFrom, if_pos rfl]
      rfl
  | m :: l, a, fuel + 1, s, hv, hfuel => by
      rw [hv.1, forEachFrom, forEachFrom_eq l (body m s) hv.2 (by simpa using hfuel)]
      rfl

end Family

/-! ## Words that nobody reads -/

section SameOn

variable {A : Type} {L L' : Links A} {S : Set A} {x h : A}

/-- The words at the addresses in `S` are the same. -/
def Links.SameOn (S : Set A) (L L' : Links A) : Prop :=
  ∀ a ∈ S, L.next a = L'.next a ∧ L.prev a = L'.prev a

lemma Links.SameOn.refl (S : Set A) (L : Links A) : L.SameOn S L := fun _ _ => ⟨rfl, rfl⟩

lemma Links.SameOn.mono {S' : Set A} (hs : L.SameOn S L') (hsub : S' ⊆ S) : L.SameOn S' L' :=
  fun a ha => hs a (hsub ha)

/-- What is visited depends on the words of what is visited. -/
lemma Links.SameOn.visits {stop : A} (hs : L.SameOn S L') :
    ∀ {l : List A} {a : A}, Visits L' stop a l → a ∈ S → (∀ b ∈ l, b ∈ S) → Visits L stop a l
  | [], a, hv, ha, _ => (hs a ha).1.trans hv
  | b :: _, a, hv, ha, hl =>
      ⟨(hs a ha).1.trans hv.1, hs.visits hv.2 (hl b List.mem_cons_self)
        fun c hc => hl c (List.mem_cons_of_mem b hc)⟩

variable [DecidableEq A]

/-- Initialising an entry of two memories. -/
lemma Links.SameOn.initListHead (hs : L.SameOn S L') (x : A) :
    (ListHead.initListHead L x).SameOn (insert x S) (ListHead.initListHead L' x) := by
  intro a ha
  simp only [ListHead.initListHead, Function.update_apply]
  split_ifs with hax
  · exact ⟨rfl, rfl⟩
  · exact hs a (Set.mem_of_mem_insert_of_ne ha hax)

/-- Adding an entry to two memories: its own words are written. -/
theorem Links.SameOn.listAdd (hs : L.SameOn S L') (hh : h ∈ S) :
    (ListHead.listAdd L x h).SameOn (insert x S) (ListHead.listAdd L' x h) := by
  intro a ha
  simp only [ListHead.listAdd, listAddBetween, Function.update_apply, (hs h hh).1]
  constructor
  · split_ifs with hah hax
    · rfl
    · rfl
    · exact (hs a (Set.mem_of_mem_insert_of_ne ha hax)).1
  · split_ifs with hax hn
    · rfl
    · rfl
    · exact (hs a (Set.mem_of_mem_insert_of_ne ha hax)).2

/-- Taking an entry off leaves its own words stale, and writes the others as `list_del_init`
does. -/
theorem Links.SameOn.listDelEntry (hs : L.SameOn S L') (hx : x ∈ S) :
    (ListHead.listDelEntry L x).SameOn (S \ {x}) (listDelInit L' x) := by
  intro a ha
  have hax : a ≠ x := ha.2
  simp only [listDelInit, ListHead.initListHead, ListHead.listDelEntry, Function.update_apply,
    (hs x hx).1, (hs x hx).2, if_neg hax]
  constructor
  · split_ifs
    · rfl
    · exact (hs a ha.1).1
  · split_ifs
    · rfl
    · exact (hs a ha.1).2

end SameOn

end ListHead
