import OsPrj.Ptree.Preorder

/-!
# The relatives named in a record

`struct prinfo` has the pids of a parent, a child and a sibling next to the place of the record in
the listing.

* `list_entry` on the task's own `children` head, or on the address of its own `sibling` entry,
  gives the task itself: `relatives_iff` says when **the task's own pid** still is that of a
  relative.
* The indentation follows the children lists and `parent_pid` the pointer `parent`, which is the
  tracer of a traced task: `parent_pid_iff` says when the two agree.
-/

namespace Ptree

open ListHead

variable {T : Type} [DecidableEq T] {h : Heap T} {initTask : T}

/-! ## The child and the sibling -/

namespace ProcessTree

variable (tree : ProcessTree h initTask) {t : T}

/-- `s` stands next to `t` on a children list. -/
def Adjacent (t s : T) : Prop :=
  ∃ p l₁ l₂, tree.kids p = l₁ ++ t :: s :: l₂ ∨ tree.kids p = l₁ ++ s :: t :: l₂

/-- `t` is the root, or the first or last on a children list. -/
def AtEnd (t : T) : Prop :=
  t = initTask ∨ ∃ p l, tree.kids p = t :: l ∨ tree.kids p = l ++ [t]

/-- What `first_child_pid` promises. -/
def ChildPid (t : T) (v : ℤ) : Prop :=
  (tree.kids t = [] ∧ v = 0) ∨ ∃ c ∈ tree.kids t, v = (h.task c).pid

/-- What `next_sibling_pid` promises. -/
def SiblingPid (t : T) (v : ℤ) : Prop :=
  (∃ s, tree.Adjacent t s ∧ v = (h.task s).pid) ∨ (v = 0 ∧ tree.AtEnd t)

lemma exists_parent_of_mem (ht : t ∈ tree.order) (hne : t ≠ initTask) : ∃ p, t ∈ tree.kids p := by
  rcases Forest.mem_preorder_cases tree.forest_shape ht with hroot | ⟨p, -, hp⟩
  · exact absurd (by simpa [forest, Forest.roots] using hroot) hne
  · exact ⟨p, hp⟩

lemma notMem_kids_self (ht : t ∈ tree.order) : t ∉ tree.kids t := by
  intro hmem
  obtain ⟨path, hpath⟩ := (Forest.mem_preorder_iff_paths []).mp ht
  exact Forest.not_transGen_self tree.parent_unique tree.forest_shape
    (fun r hr t => tree.root_notMem hr t) hpath (.single hmem)

lemma Adjacent.mem_order (ht : t ∈ tree.order) {s : T} (hs : tree.Adjacent t s) :
    s ∈ tree.order ∧ s ≠ t := by
  obtain ⟨p, l₁, l₂, hkids⟩ := hs
  have hmem : t ∈ tree.kids p ∧ s ∈ tree.kids p := by
    rcases hkids with hkids | hkids <;> simp [hkids]
  have hne : s ≠ t := by
    rintro rfl
    have hnodup := tree.represents.nodup p
    rcases hkids with hkids | hkids <;> simp [hkids, List.nodup_append] at hnodup
  have hp : p ∈ tree.order := by
    have hroot : t ≠ initTask := by
      rintro rfl
      exact tree.init_notMem p hmem.1
    rcases Forest.mem_preorder_cases tree.forest_shape ht with h | ⟨q, hq, hqt⟩
    · exact absurd (by simpa [forest, Forest.roots] using h) hroot
    · rwa [tree.parent_unique hmem.1 hqt]
  exact ⟨Forest.mem_preorder_of_child tree.forest_shape hp hmem.2, hne⟩

/-- The record of a task with children holds the task's own pid as that of a child. -/
lemma firstChildPid_eq (t : T) (depth : ℕ) :
    (record h t depth).firstChildPid = if tree.kids t = [] then 0 else (h.task t).pid := by
  simp [record, tree.represents.listEmpty_head]

/-- The record of every task but the root holds its own pid as that of a sibling. -/
lemma nextSiblingPid_eq (ht : t ∈ tree.order) (depth : ℕ) :
    (record h t depth).nextSiblingPid = if t = initTask then 0 else (h.task t).pid := by
  by_cases hroot : t = initTask
  · have hempty := tree.represents.listEmpty_node_of_notMem (m := t) (by
      rw [hroot]
      exact tree.init_notMem)
    simp only [record, hempty, if_pos hroot, if_true]
  · obtain ⟨p, hp⟩ := tree.exists_parent_of_mem ht hroot
    simp [record, tree.represents.listEmpty_node_of_mem hp, hroot]

lemma childPid_iff (t : T) (depth : ℕ) :
    tree.ChildPid t (record h t depth).firstChildPid
      ↔ tree.kids t = [] ∨ ∃ c ∈ tree.kids t, (h.task c).pid = (h.task t).pid := by
  rw [tree.firstChildPid_eq]
  by_cases hkids : tree.kids t = []
  · simp [ChildPid, hkids]
  · rw [if_neg hkids]
    simp only [ChildPid, hkids, false_and, false_or]
    exact ⟨fun ⟨c, hc, he⟩ => ⟨c, hc, he.symm⟩, fun ⟨c, hc, he⟩ => ⟨c, hc, he.symm⟩⟩

lemma siblingPid_iff (ht : t ∈ tree.order) (depth : ℕ) :
    tree.SiblingPid t (record h t depth).nextSiblingPid
      ↔ t = initTask ∨ (∃ s, tree.Adjacent t s ∧ (h.task s).pid = (h.task t).pid) ∨
        ((h.task t).pid = 0 ∧ tree.AtEnd t) := by
  rw [tree.nextSiblingPid_eq ht]
  by_cases hroot : t = initTask
  · rw [if_pos hroot]
    exact ⟨fun _ => Or.inl hroot, fun _ => Or.inr ⟨rfl, Or.inl hroot⟩⟩
  · rw [if_neg hroot]
    constructor
    · rintro (⟨s, hs, he⟩ | hend)
      · exact Or.inr (Or.inl ⟨s, hs, he.symm⟩)
      · exact Or.inr (Or.inr hend)
    · rintro (hinit | ⟨s, hs, he⟩ | hend)
      · exact absurd hinit hroot
      · exact Or.inl ⟨s, hs, he.symm⟩
      · exact Or.inr hend

end ProcessTree

/-- `get_prinfo` fills a record with what `dfs_ptree` does not. -/
lemma getPrinfo_eq (h : Heap T) (t : T) {i : ℕ} {k : Ker} (hi : i < k.cap) :
    ∃ k', getPrinfo h t i k = .ok k' ∧ k'.buf i = record h t (k.buf i).depth := by
  refine ⟨{ k with buf := Function.update k.buf i (record h t (k.buf i).depth), nr := k.nr + 1 },
    ?_, Function.update_self i _ k.buf⟩
  cases hc : listEmpty h.links (.head t) <;> cases hs : listEmpty h.links (.node t) <;>
    simp [Ker.write, getPrinfo, hi, hc, hs, record, listEntryChildren, listEntrySibling, bind,
      Except.bind, pure, Except.pure]

/-- **When the child and the sibling of a record are real relatives**: exactly when some child has
the task's own pid or there is none, and the task is the root, or some neighbour on the children
list has the task's own pid, or that pid is 0 and the task is at an end of the list.  With
different pids and only the root's 0, this is the case for a root without children alone. -/
theorem relatives_iff (tree : ProcessTree h initTask) (t : T) (ht : t ∈ tree.order) (k : Ker)
    (i : ℕ) (hi : i < k.cap) :
    ∃ k', getPrinfo h t i k = .ok k' ∧
      (tree.ChildPid t (k'.buf i).firstChildPid ∧ tree.SiblingPid t (k'.buf i).nextSiblingPid ↔
        (tree.kids t = [] ∨ ∃ c ∈ tree.kids t, (h.task c).pid = (h.task t).pid) ∧
        (t = initTask ∨ (∃ s, tree.Adjacent t s ∧ (h.task s).pid = (h.task t).pid) ∨
          ((h.task t).pid = 0 ∧ tree.AtEnd t))) ∧
      ((h.task initTask).pid = 0 → (∀ a ∈ tree.order, ∀ b ∈ tree.order,
          (h.task a).pid = (h.task b).pid → a = b) →
        (tree.ChildPid t (k'.buf i).firstChildPid ∧ tree.SiblingPid t (k'.buf i).nextSiblingPid ↔
          t = initTask ∧ tree.kids t = [])) := by
  obtain ⟨k', hk', hbuf⟩ := getPrinfo_eq h t hi
  refine ⟨k', hk', ?_⟩
  rw [hbuf, tree.childPid_iff, tree.siblingPid_iff ht]
  refine ⟨Iff.rfl, fun hinit hpids => ?_⟩
  have hchild : ¬ ∃ c ∈ tree.kids t, (h.task c).pid = (h.task t).pid := by
    rintro ⟨c, hc, heq⟩
    have hmem := Forest.mem_preorder_of_child tree.forest_shape ht hc
    obtain rfl := hpids c hmem t ht heq
    exact tree.notMem_kids_self ht hc
  have hsibling : ¬ ∃ s, tree.Adjacent t s ∧ (h.task s).pid = (h.task t).pid := by
    rintro ⟨s, hs, heq⟩
    obtain ⟨hmem, hne⟩ := ProcessTree.Adjacent.mem_order tree ht hs
    exact hne (hpids s hmem t ht heq)
  have hzero : (h.task t).pid = 0 → t = initTask := by
    intro hpid
    exact hpids t ht initTask (tree.mem_order_iff.mpr (Or.inl rfl)) (hpid.trans hinit.symm)
  simp only [hchild, hsibling, or_false, false_or]
  constructor
  · rintro ⟨hkids, hroot | ⟨hpid, -⟩⟩
    · exact ⟨hroot, hkids⟩
    · exact ⟨hzero hpid, hkids⟩
  · rintro ⟨hroot, hkids⟩
    exact ⟨hkids, Or.inl hroot⟩

theorem relatives_iff_boot :
    ∃ k', getPrinfo bootHeap 3 0 Ker.alloc = .ok k' ∧
      ¬ (bootTree.ChildPid 3 (k'.buf 0).firstChildPid ∧
        bootTree.SiblingPid 3 (k'.buf 0).nextSiblingPid) := by
  obtain ⟨k', hk', -, hiff⟩ := relatives_iff bootTree 3 (by decide) Ker.alloc 0 (by decide)
  refine ⟨k', hk', fun hboth => ?_⟩
  have hroot := ((hiff rfl (by decide)).mp hboth).1
  exact absurd hroot (by decide)

/-- Task 1 has the child 3; its record names task 1 as its own child. -/
theorem child_pid_own :
    ∃ k', getPrinfo bootHeap 1 0 Ker.alloc = .ok k' ∧
      ¬ (bootTree.ChildPid 1 (k'.buf 0).firstChildPid ∧
        bootTree.SiblingPid 1 (k'.buf 0).nextSiblingPid) := by
  obtain ⟨k', hk', hbuf⟩ := getPrinfo_eq bootHeap 1 (i := 0) (k := Ker.alloc)
    (by decide)
  refine ⟨k', hk', ?_⟩
  rintro ⟨hchild, -⟩
  rw [hbuf, bootTree.childPid_iff] at hchild
  exact absurd hchild (by decide)

/-! ## The parent -/

/-- Record `j` is the nearest before record `i` whose depth is one smaller. -/
def NearestShallower (buf : ℕ → Prinfo) (i j : ℕ) : Prop :=
  j < i ∧ (buf j).depth + 1 = (buf i).depth ∧
    ∀ m, j < m → m < i → (buf m).depth + 1 ≠ (buf i).depth

lemma NearestShallower.unique {buf : ℕ → Prinfo} {i j j' : ℕ} (hj : NearestShallower buf i j)
    (hj' : NearestShallower buf i j') : j = j' := by
  obtain ⟨hlt, hdepth, hbetween⟩ := hj
  obtain ⟨hlt', hdepth', hbetween'⟩ := hj'
  rcases Nat.lt_trichotomy j j' with h | h | h
  · exact absurd hdepth' (hbetween j' h hlt')
  · exact h
  · exact absurd hdepth (hbetween' j h hlt)

/-- The pid behind `task->parent`. -/
def Heap.parentPid (h : Heap T) (t : T) : ℤ := (h.task t).parent.elim 0 fun p => (h.task p).pid

/-- In the listing of the tree the nearest earlier record of one less depth is that of the task on
whose children list the record's task is linked. -/
lemma ProcessTree.exists_nearest (tree : ProcessTree h initTask) {buf : ℕ → Prinfo}
    (hbuf : ∀ i (hi : i < (records h 0 tree.forest).length), buf i = (records h 0 tree.forest)[i])
    {i : ℕ} (hpos : 0 < i) (hi : i < tree.order.length) :
    ∃ j, ∃ hj : j < i, NearestShallower buf i j ∧ tree.order[i] ∈ tree.kids tree.order[j] ∧
      (buf i).parentPid = h.parentPid tree.order[i] ∧ (buf j).pid = (h.task tree.order[j]).pid := by
  have hlen : (tree.forest.paths []).length = tree.order.length := by
    rw [Forest.length_paths, order, Forest.length_preorder]
  have hrec : ∀ m (hm : m < tree.order.length) (hm' : m < (tree.forest.paths []).length),
      buf m = record h (tree.forest.paths [])[m].1 (tree.forest.paths [])[m].2.length := by
    intro m hm hm'
    have hrecords := records_eq_map (h := h) tree.forest []
    rw [List.length_nil] at hrecords
    rw [hbuf m (by rwa [hrecords, List.length_map])]
    simp only [hrecords, List.getElem_map]
  have horder : ∀ m (hm : m < tree.order.length) (hm' : m < (tree.forest.paths []).length),
      tree.order[m] = (tree.forest.paths [])[m].1 := by
    intro m hm hm'
    simp only [order, ← Forest.map_fst_paths tree.forest [], List.getElem_map]
  have hi' : i < (tree.forest.paths []).length := by rwa [hlen]
  -- only the first record is at depth 0
  have hbelow : ([] : List T).length < (tree.forest.paths [])[i].2.length := by
    have hcons : tree.forest.paths [] = (initTask, []) :: tree.below.paths [initTask] := by
      simp [forest, Forest.paths]
    obtain ⟨n, rfl⟩ := Nat.exists_eq_succ_of_ne_zero hpos.ne'
    have hn : n < (tree.below.paths [initTask]).length := by
      rw [hcons, List.length_cons] at hi'
      exact Nat.lt_of_succ_lt_succ hi'
    have hmem : (tree.forest.paths [])[n + 1] ∈ tree.below.paths [initTask] := by
      simp only [hcons, List.getElem_cons_succ]
      exact List.getElem_mem hn
    exact Forest.le_length_of_mem_paths hmem
  obtain ⟨j, hj, hkids, hdepth, hdeep⟩ :=
    Forest.exists_parent_index tree.forest_shape hi' hbelow
  refine ⟨j, hj, ⟨hj, ?_, fun m hjm hmi => ?_⟩, ?_, ?_, ?_⟩
  · rw [hrec i hi hi', hrec j (by omega) (by omega)]
    exact hdepth
  · rw [hrec i hi hi', hrec m (by omega) (by omega)]
    have := hdeep m hmi hjm
    show (tree.forest.paths [])[m].2.length + 1 ≠ (tree.forest.paths [])[i].2.length
    omega
  · rw [horder i hi hi', horder j (by omega) (by omega)]
    exact hkids
  · rw [hrec i hi hi', horder i hi hi']
    rfl
  · rw [hrec j (by omega) (by omega), horder j (by omega) (by omega)]
    rfl

/-- **When `parent_pid` agrees with the printed tree**: exactly when the pointer `parent` of every
task on a children list of the tree leads to a task with the pid of the list's owner, so that no
task is traced by another one. -/
theorem parent_pid_iff (tree : ProcessTree h initTask) (hsize : tree.order.length ≤ 1024)
    (env : Env) (hkcalloc : env.kcallocOk = true) (hkzalloc : env.kzallocOk = true)
    (hcopied : ∀ n, n ≤ env.copied n) (hcopiedNr : env.copiedNr = true) (fuel : ℕ)
    (hfuel : 2 * tree.order.length ≤ fuel) (u : User) :
    ∃ o, ptree h initTask env fuel u = .ok o ∧ o.ret = 0 ∧ o.user.nr = tree.order.length ∧
      ((∀ i, 0 < i → i < o.user.nr → ∃ j, NearestShallower o.user.buf i j ∧
          (o.user.buf i).parentPid = (o.user.buf j).pid) ↔
        ∀ p ∈ tree.order, ∀ t ∈ tree.kids p, h.parentPid t = (h.task p).pid) := by
  obtain ⟨o, hptree, hret, hnr, hbuf, -⟩ :=
    ptree_records tree hsize env hkcalloc hkzalloc hcopied hcopiedNr fuel hfuel u
  refine ⟨o, hptree, hret, hnr, ?_, ?_⟩
  · intro hparents p hp t ht
    have hmem := Forest.mem_preorder_of_child tree.forest_shape hp ht
    obtain ⟨i, hi, rfl⟩ := List.getElem_of_mem hmem
    have hpos : 0 < i := by
      rcases Nat.eq_zero_or_pos i with rfl | hpos
      · exact absurd ht (tree.init_notMem p)
      · exact hpos
    obtain ⟨j, hj, hnear, hkids, hparent, hpid⟩ := tree.exists_nearest hbuf hpos hi
    obtain ⟨j', hnear', heq⟩ := hparents i hpos (by rwa [hnr])
    obtain rfl := hnear.unique hnear'
    rw [tree.parent_unique ht hkids, ← hpid, ← heq, hparent]
    rfl
  · intro hparents i hpos hi
    rw [hnr] at hi
    obtain ⟨j, hj, hnear, hkids, hparent, hpid⟩ := tree.exists_nearest hbuf hpos hi
    refine ⟨j, hnear, ?_⟩
    rw [hparent, hpid]
    exact hparents _ (List.getElem_mem _) _ hkids

theorem parent_pid_iff_boot :
    ∃ o, ptree bootHeap 0 ⟨true, true, id, true⟩ 8 ⟨fun _ => Prinfo.zero, 0⟩ = .ok o ∧
      ∀ i, 0 < i → i < 4 → ∃ j, NearestShallower o.user.buf i j ∧
        (o.user.buf i).parentPid = (o.user.buf j).pid := by
  obtain ⟨o, hptree, -, hnr, hiff⟩ := parent_pid_iff bootTree (by decide)
    ⟨true, true, id, true⟩ rfl rfl (fun n => le_refl n) rfl 8 (by decide)
    ⟨fun _ => Prinfo.zero, 0⟩
  refine ⟨o, hptree, ?_⟩
  have hlen : o.user.nr = 4 := hnr.trans (by decide)
  rw [← hlen]
  exact hiff.mpr (by decide)

/-- The record of a traced task names its tracer, which the listing shows elsewhere. -/
theorem parent_pid_tracer :
    ∃ o, ptree tracedHeap 0 ⟨true, true, id, true⟩ 8 ⟨fun _ => Prinfo.zero, 0⟩ = .ok o ∧
      ¬ ∀ i, 0 < i → i < o.user.nr → ∃ j, NearestShallower o.user.buf i j ∧
        (o.user.buf i).parentPid = (o.user.buf j).pid := by
  obtain ⟨o, hptree, -, hnr, hbuf, -⟩ := ptree_records tracedTree (by decide)
    ⟨true, true, id, true⟩ rfl rfl (fun n => le_refl n) rfl 8 (by decide)
    ⟨fun _ => Prinfo.zero, 0⟩
  refine ⟨o, hptree, fun hparents => ?_⟩
  have hlen : tracedTree.order.length = 4 := by decide
  obtain ⟨j, hnear, heq⟩ := hparents 2 (by decide) (by omega)
  have hnear' : NearestShallower o.user.buf 2 1 := by
    refine ⟨by decide, ?_, fun m hm hm' => by omega⟩
    rw [hbuf 1 (by decide), hbuf 2 (by decide)]
    rfl
  obtain rfl := hnear.unique hnear'
  rw [hbuf 1 (by decide), hbuf 2 (by decide)] at heq
  exact absurd heq (by decide)

end Ptree
