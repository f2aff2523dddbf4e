import OsPrj.Groups.Model
import OsPrj.Lib.TreeWalk

/-!
# The walk of the group tree

* `Tree` — the words of the groups describe a finite tree.  It holds in every reachable state
  (`Reachable.tree`).
* `walkTgTreeFrom_eq` — `walk_tg_tree_from`, with its jumps between two labels, **performs the
  events of a depth-first walk**, up to the first visitor that fails.
* `walk_tg_tree_visits` — the same in every reachable state, from every group.
-/

namespace Groups

open ListHead Forest

variable {G : Type} [DecidableEq G]

/-! ## The tree of the groups -/

/-- The addresses of the list heads in the groups of `l`. -/
def words (l : List G) : Set (Node G G) := {a | ∃ g ∈ l, a = .head g ∨ a = .node g}

/-- The groups form a tree: `F` is what is below the root, and `kids` the lists in memory.  Of a
group that has been destroyed nothing is known but that it has no children. -/
structure Tree (m : Mem G) (kids : G → List G) (F : Forest G) : Prop where
  shape : (cons m.rootTaskGroup F nil).Shape kids
  perm : (cons m.rootTaskGroup F nil).preorder.Perm m.taskGroups
  nodup : m.taskGroups.Nodup
  free : ∀ a, a ∉ m.taskGroups → kids a = []
  links : ∃ L, Represents L kids ∧ m.links.SameOn (words m.taskGroups) L
  parent_root : (m.group m.rootTaskGroup).parent = none
  parent : ∀ a c, c ∈ kids a → (m.group c).parent = some a

/-- The words that the tree is made of are the same. -/
structure SameTree (m m' : Mem G) : Prop where
  links : m'.links = m.links
  rootTaskGroup : m'.rootTaskGroup = m.rootTaskGroup
  taskGroups : m'.taskGroups = m.taskGroups
  parent : ∀ g, (m'.group g).parent = (m.group g).parent

omit [DecidableEq G] in
lemma SameTree.refl (m : Mem G) : SameTree m m := ⟨rfl, rfl, rfl, fun _ => rfl⟩

omit [DecidableEq G] in
lemma SameTree.trans {m m' m'' : Mem G} (h : SameTree m m') (h' : SameTree m' m'') :
    SameTree m m'' :=
  ⟨h'.links.trans h.links, h'.rootTaskGroup.trans h.rootTaskGroup,
    h'.taskGroups.trans h.taskGroups, fun g => (h'.parent g).trans (h.parent g)⟩

/-- A write to a group that leaves its parent alone. -/
lemma sameTree_setGroup (m : Mem G) (tg : G) {f : TaskGroup G → TaskGroup G}
    (hf : (f (m.group tg)).parent = (m.group tg).parent) : SameTree m (m.setGroup tg f) := by
  refine ⟨rfl, rfl, rfl, fun g => ?_⟩
  by_cases hg : g = tg
  · rw [hg, Mem.setGroup_group_self, hf]
  · rw [Mem.setGroup_group_of_ne m hg]

section

variable {m m' : Mem G} {kids : G → List G} {F : Forest G} {a c p : G}

lemma Tree.congr (h : Tree m kids F) (hs : SameTree m m') : Tree m' kids F where
  shape := by
    rw [hs.rootTaskGroup]
    exact h.shape
  perm := by
    rw [hs.rootTaskGroup, hs.taskGroups]
    exact h.perm
  nodup := by
    rw [hs.taskGroups]
    exact h.nodup
  free := by
    rw [hs.taskGroups]
    exact h.free
  links := by
    rw [hs.links, hs.taskGroups]
    exact h.links
  parent_root := by
    rw [hs.rootTaskGroup, hs.parent]
    exact h.parent_root
  parent := fun a c hc => (hs.parent c).trans (h.parent a c hc)

lemma Tree.root_mem (h : Tree m kids F) : m.rootTaskGroup ∈ m.taskGroups :=
  h.perm.subset List.mem_cons_self

lemma Tree.mem_of_kids (h : Tree m kids F) (hc : c ∈ kids a) : a ∈ m.taskGroups := by
  by_contra ha
  rw [h.free a ha] at hc
  exact List.not_mem_nil hc

lemma Tree.kid_mem (h : Tree m kids F) (hc : c ∈ kids a) : c ∈ m.taskGroups :=
  h.perm.subset (mem_preorder_of_child h.shape (h.perm.symm.subset (h.mem_of_kids hc)) hc)

lemma Tree.kid_ne_root (h : Tree m kids F) (hc : c ∈ kids a) : c ≠ m.rootTaskGroup := by
  rintro rfl
  have hparent := h.parent a _ hc
  rw [h.parent_root] at hparent
  exact absurd hparent (by simp)

/-- Every group but the root is a child of its parent. -/
lemma Tree.exists_parent (h : Tree m kids F) (ha : a ∈ m.taskGroups) (hne : a ≠ m.rootTaskGroup) :
    ∃ p, a ∈ kids p := by
  rcases mem_preorder_cases h.shape (h.perm.symm.subset ha) with hroot | ⟨p, -, hp⟩
  · exact absurd (List.mem_singleton.mp hroot) hne
  · exact ⟨p, hp⟩

/-- A group is a child of one group at most. -/
lemma Tree.parent_unique (h : Tree m kids F) (ha : c ∈ kids a) (hp : c ∈ kids p) : a = p :=
  Option.some.inj ((h.parent a c ha).symm.trans (h.parent p c hp))

lemma Tree.mem_kids_of_parent (h : Tree m kids F) (ha : a ∈ m.taskGroups)
    (hp : (m.group a).parent = some p) : a ∈ kids p := by
  by_cases hroot : a = m.rootTaskGroup
  · rw [hroot, h.parent_root] at hp
    exact absurd hp (by simp)
  · rcases h.exists_parent ha hroot with ⟨q, hq⟩
    rw [h.parent q a hq] at hp
    exact Option.some.inj hp ▸ hq

/-- **The list of children in memory**, as the code follows it. -/
theorem Tree.visits (h : Tree m kids F) (ha : a ∈ m.taskGroups) :
    Visits m.links (.head a) (.head a) ((kids a).map .node) := by
  rcases h.links with ⟨L, hL, hsame⟩
  refine hsame.visits (hL.visits a) ⟨a, ha, .inl rfl⟩ fun b hb => ?_
  rcases List.mem_map.mp hb with ⟨c, hc, rfl⟩
  exact ⟨c, h.kid_mem hc, .inr rfl⟩

lemma Tree.next_head (h : Tree m kids F) (ha : a ∈ m.taskGroups) :
    m.links.next (.head a) = ((kids a).head?.map Node.node).getD (.head a) := by
  rcases h.links with ⟨L, hL, hsame⟩
  exact (hsame _ ⟨a, ha, .inl rfl⟩).1.trans (hL.next_head a)

lemma Tree.next_node (h : Tree m kids F) {l₁ l₂ : List G} (hk : kids p = l₁ ++ a :: l₂) :
    m.links.next (.node a) = (l₂.head?.map Node.node).getD (.head p) := by
  have ha : a ∈ kids p := by
    rw [hk]
    exact List.mem_append_right _ List.mem_cons_self
  rcases h.links with ⟨L, hL, hsame⟩
  rw [(hsame _ ⟨a, h.kid_mem ha, .inr rfl⟩).1]
  cases l₂ with
  | nil => exact hL.next_last hk
  | cons b l₂ => exact hL.next_mid hk

/-! ## The walk -/

/-- The group that an entry belongs to. -/
def entryOf : Node G G → Option G
  | .node c => some c
  | .head _ => none

/-- The words of a group, as the walk reads them. -/
def cursorOf (m : Mem G) : Cursor G where
  firstChild a := entryOf (m.links.next (.head a))
  nextSibling a := entryOf (m.links.next (.node a))
  parent a := (m.group a).parent

omit [DecidableEq G] in
lemma SameTree.cursorOf (h : SameTree m m') : cursorOf m' = cursorOf m := by
  have hparent : (fun a => (m'.group a).parent) = fun a => (m.group a).parent := funext h.parent
  rw [Groups.cursorOf, Groups.cursorOf, h.links, hparent]

omit [DecidableEq G] in
lemma entryOf_getD (o : Option G) (a : G) :
    entryOf ((o.map Node.node).getD (.head a)) = o := by
  cases o with
  | none => rfl
  | some c => rfl

lemma Tree.agrees (h : Tree m kids F) : (cursorOf m).Agrees kids {a | a ∈ m.taskGroups} where
  firstChild := fun a ha => (congrArg entryOf (h.next_head ha)).trans (entryOf_getD _ a)
  nextSibling := fun p _ _ _ _ hk => (congrArg entryOf (h.next_node hk)).trans (entryOf_getD _ p)
  parent := fun p _ a ha => h.parent p a ha

/-- Call the visitors for the events of a walk, up to the first that fails. -/
def visitAll (down up : Visitor G) : List (Event G) → Mem G → Except Fault (ℤ × Mem G)
  | [], m => pure (0, m)
  | .enter a :: l, m => do
      let (ret, m) ← down a m
      if ret ≠ 0 then pure (ret, m) else visitAll down up l m
  | .leave a :: l, m => do
      let (ret, m) ← up a m
      if ret ≠ 0 then pure (ret, m) else visitAll down up l m

/-- The visitor does not write the words that the tree is made of. -/
def KeepsTree (v : Visitor G) : Prop := ∀ a m ret m', v a m = .ok (ret, m') → SameTree m m'

omit [DecidableEq G] in
lemma keepsTree_tgNop : KeepsTree (tgNop : Visitor G) := by
  intro a m ret m' h
  obtain ⟨-, rfl⟩ := Prod.mk.inj (Except.ok.inj h)
  exact .refl m

/-- The group that is entered or left. -/
def Event.group : Event G → G
  | .enter a => a
  | .leave a => a

/-- Where the code is when it comes to an event. -/
def pcOf : Event G → Pc G
  | .enter a => .down a
  | .leave a => .loop a (.head a)

variable {start : G} {down up : Visitor G} {fuel n : ℕ}

/-- The loop over the children comes to an entry, or back to the head. -/
lemma walkTgTreeFrom_loop {x : Except Fault (ℤ × Mem G)} {o : Option G}
    (h : ∀ fuel, n ≤ fuel →
      walkTgTreeFrom start down up fuel (pcOf (o.elim (.leave p) .enter)) m = x)
    (hfuel : n + 1 ≤ fuel) :
    walkTgTreeFrom start down up fuel (.loop p ((o.map .node).getD (.head p))) m = x := by
  cases o with
  | none => exact h fuel (by omega)
  | some c =>
      obtain ⟨k, rfl⟩ : ∃ k, fuel = k + 1 := ⟨fuel - 1, by omega⟩
      rw [← h k (by omega), walkTgTreeFrom]
      rfl

/-- **The code makes the moves of the walk**, one event after the other. -/
theorem walkTgTreeFrom_walk (hdown : KeepsTree down) (hup : KeepsTree up) :
    ∀ (n : ℕ) (e : Event G) {m : Mem G} {fuel : ℕ}, Tree m kids F →
      Event.group e ∈ m.taskGroups → ((cursorOf m).walk start n e).length < n → 2 * n ≤ fuel →
      walkTgTreeFrom start down up fuel (pcOf e) m
        = visitAll down up ((cursorOf m).walk start n e) m
  | n + 1, .enter a, m, fuel, ht, ha, hlen, hfuel => by
      obtain ⟨k, rfl⟩ : ∃ k, fuel = k + 1 := ⟨fuel - 1, by omega⟩
      rw [pcOf, walkTgTreeFrom, Cursor.walk, visitAll]
      cases hv : down a m with
      | error f => rfl
      | ok r =>
          rcases r with ⟨ret, m'⟩
          have hsame := hdown a m ret m' hv
          have ht' := ht.congr hsame
          have ha' : a ∈ m'.taskGroups := by
            rw [hsame.taskGroups]
            exact ha
          simp only [bind, Except.bind]
          split_ifs with hret
          · rfl
          · rw [Cursor.walk, Cursor.next, Option.elim, List.length_cons,
              Nat.add_lt_add_iff_right] at hlen
            rw [Cursor.next, Option.elim, ← hsame.cursorOf, ht'.next_head ha']
            have hfirst : (cursorOf m').firstChild a = (kids a).head? := ht'.agrees.firstChild a ha'
            rw [← hsame.cursorOf, hfirst] at hlen
            rw [hfirst]
            refine walkTgTreeFrom_loop (n := 2 * n) (fun fuel hn => ?_) (by omega)
            refine walkTgTreeFrom_walk hdown hup n _ ht' ?_ hlen hn
            cases hk : (kids a).head? with
            | none => exact ha'
            | some c => exact ht'.kid_mem (List.mem_of_mem_head? hk)
  | n + 1, .leave a, m, fuel, ht, ha, hlen, hfuel => by
      obtain ⟨k, rfl⟩ : ∃ k, fuel = k + 1 := ⟨fuel - 1, by omega⟩
      rw [pcOf, walkTgTreeFrom, Cursor.walk, visitAll, if_neg (not_not.mpr rfl)]
      cases hv : up a m with
      | error f => rfl
      | ok r =>
          rcases r with ⟨ret, m'⟩
          have hsame := hup a m ret m' hv
          have ht' := ht.congr hsame
          have ha' : a ∈ m'.taskGroups := by
            rw [hsame.taskGroups]
            exact ha
          simp only [bind, Except.bind]
          by_cases hret : ret = 0
          · subst hret
            simp only [ne_eq, not_true_eq_false, false_or, if_false]
            rw [Cursor.next, ← hsame.cursorOf]
            rw [Cursor.walk, Cursor.next, ← hsame.cursorOf] at hlen
            by_cases hstart : a = start
            · rw [if_pos hstart, if_pos hstart]
              rfl
            rw [if_neg hstart] at hlen ⊢
            rw [if_neg hstart]
            change (List.length (_ :: ((m'.group a).parent.map _).elim _ _)) < _ at hlen
            change _ = visitAll down up (((m'.group a).parent.map _).elim _ _) m'
            cases hpar : (m'.group a).parent with
            | none => rfl
            | some p =>
                have hmem := ht'.mem_kids_of_parent ha' hpar
                rcases List.append_of_mem hmem with ⟨l₁, l₂, hk⟩
                have hnext : (cursorOf m').nextSibling a = l₂.head? :=
                  ht'.agrees.nextSibling p (ht'.mem_of_kids hmem) l₁ a l₂ hk
                rw [hpar, Option.map_some, Option.elim, hnext, List.length_cons,
                  Nat.add_lt_add_iff_right] at hlen
                rw [Option.map_some, Option.elim, hnext]
                dsimp only
                rw [ht'.next_node hk]
                refine walkTgTreeFrom_loop (n := 2 * n) (fun fuel hn => ?_) (by omega)
                refine walkTgTreeFrom_walk hdown hup n _ ht' ?_ hlen hn
                cases hl : l₂.head? with
                | none => exact ht'.mem_of_kids hmem
                | some c =>
                    refine ht'.kid_mem (a := p) ?_
                    rw [hk]
                    exact List.mem_append_right _
                      (List.mem_cons_of_mem a (List.mem_of_mem_head? hl))
          · rw [if_pos (.inl hret), if_pos hret]

/-- **`walk_tg_tree_from` is a depth-first walk** of the tree below the group it starts from. -/
theorem Tree.walkTgTreeFrom_eq (h : Tree m kids F) (hdown : KeepsTree down) (hup : KeepsTree up)
    {S : Forest G} (hstart : start ∈ m.taskGroups) (hroots : kids start = S.roots)
    (hS : S.Shape kids) (hnodup : (cons start S nil).preorder.Nodup)
    (hfuel : 4 * (cons start S nil).size + 2 ≤ fuel) :
    walkTgTreeFrom start down up fuel (.down start) m
      = visitAll down up (cons start S nil).events m := by
  have hlive : ∀ a ∈ S.preorder, a ∈ m.taskGroups := by
    intro a ha
    rcases (mem_preorder_iff hS).mp ha with ⟨r, hr, hra⟩
    induction hra with
    | refl => exact h.kid_mem (a := start) (by rwa [hroots])
    | tail _ hst _ => exact h.kid_mem hst
  have hnot : start ∉ S.preorder := by
    have hcons : (start :: (S.preorder ++ [])).Nodup := hnodup
    rw [List.append_nil] at hcons
    exact (List.nodup_cons.mp hcons).1
  have hwalk := Cursor.walk_tree h.agrees hroots hS hstart hlive hnot 1
  rw [← hwalk]
  refine walkTgTreeFrom_walk hdown hup _ (.enter start) h hstart ?_ (by omega)
  rw [hwalk, length_events]
  omega

end

/-! ## The tree in a run -/

section

variable {cfg : Config} {m m' : Mem G} {kids : G → List G} {F : Forest G} {tg parent : G}

/-- A walk writes what its visitors write. -/
lemma walkTgTreeFrom_writes {R : Mem G → Mem G → Prop} {start : G} {down up : Visitor G}
    (htrans : ∀ {a b c}, R a b → R b c → R a c)
    (hdown : ∀ a m ret m', down a m = .ok (ret, m') → R m m')
    (hup : ∀ a m ret m', up a m = .ok (ret, m') → R m m') :
    ∀ (fuel : ℕ) (pc : Pc G) {m m' : Mem G} {ret : ℤ},
      walkTgTreeFrom start down up fuel pc m = .ok (ret, m') → R m m'
  | 0, _, _, _, _, h => nomatch h
  | fuel + 1, .down a, m, m', ret, h => by
      rcases exists_of_bind_ok h with ⟨⟨r, m₁⟩, hv, hrest⟩
      have hR := hdown a m r m₁ hv
      dsimp only at hrest
      split_ifs at hrest
      · obtain ⟨-, rfl⟩ := Prod.mk.inj (Except.ok.inj hrest)
        exact hR
      · exact htrans hR (walkTgTreeFrom_writes (R := R) htrans hdown hup fuel _ hrest)
  | fuel + 1, .loop a child, m, m', ret, h => by
      rw [walkTgTreeFrom] at h
      split_ifs at h
      · rcases exists_of_bind_ok h with ⟨c, -, hrest⟩
        exact walkTgTreeFrom_writes (R := R) htrans hdown hup fuel _ hrest
      · rcases exists_of_bind_ok h with ⟨⟨r, m₁⟩, hv, hrest⟩
        have hR := hup a m r m₁ hv
        dsimp only at hrest
        split_ifs at hrest
        · obtain ⟨-, rfl⟩ := Prod.mk.inj (Except.ok.inj hrest)
          exact hR
        · split at hrest
          · obtain ⟨-, rfl⟩ := Prod.mk.inj (Except.ok.inj hrest)
            exact hR
          · exact htrans hR (walkTgTreeFrom_writes (R := R) htrans hdown hup fuel _ hrest)

lemma tree_init (root : G) : Tree (init cfg root) (fun _ => []) nil where
  shape := ⟨rfl, trivial, trivial⟩
  perm := .refl _
  nodup := List.nodup_singleton root
  free := fun _ _ => rfl
  links := ⟨_, represents_init, .refl _ _⟩
  parent_root := rfl
  parent := fun _ _ hc => absurd hc List.not_mem_nil

/-- The new group is the first child of its parent. -/
theorem Tree.create (h : Tree m kids F) (hparent : parent ∈ m.taskGroups)
    (htg : tg ∉ m.taskGroups) :
    ∃ F', Tree (schedCreateGroup cfg m parent tg true).2
      (Function.update kids parent (tg :: kids parent)) F' := by
  have hne : tg ≠ parent := fun heq => htg (heq ▸ hparent)
  have hnew : tg ∉ (cons m.rootTaskGroup F nil).preorder := fun hmem => htg (h.perm.subset hmem)
  have hnodup := h.perm.symm.nodup h.nodup
  obtain ⟨F', hF'⟩ : ∃ F', (cons m.rootTaskGroup F nil).insertChild parent tg
      = cons m.rootTaskGroup F' nil := by
    rw [insertChild]
    split_ifs
    · exact ⟨_, rfl⟩
    · exact ⟨_, rfl⟩
  refine ⟨F', ?_⟩
  constructor
  · have hshape := h.shape.insertChild hnodup hnew (h.free tg htg) hne
    rwa [hF'] at hshape
  · have hperm := preorder_insertChild_perm (x := tg) (h.perm.symm.subset hparent) hnodup
    rw [hF'] at hperm
    exact hperm.trans (h.perm.cons tg)
  · exact List.nodup_cons.mpr ⟨htg, h.nodup⟩
  · intro a ha
    rcases not_or.mp (fun hor => ha (List.mem_cons.mpr hor)) with ⟨-, ha'⟩
    rw [Function.update_of_ne (fun heq : a = parent => ha' (heq ▸ hparent))]
    exact h.free a ha'
  · rcases h.links with ⟨L, hL, hsame⟩
    have hfree : ∀ a, tg ∉ kids a := fun a hmem => htg (h.kid_mem hmem)
    refine ⟨listAdd L (.node tg) (.head parent), hL.add hfree parent, ?_⟩
    have hinit := hsame.initListHead (.head tg)
    rw [hL.initListHead_head (h.free tg htg)] at hinit
    refine (hinit.listAdd (Set.mem_insert_of_mem _ ⟨parent, hparent, .inl rfl⟩)).mono ?_
    rintro a ⟨g, hg, ha⟩
    rcases List.mem_cons.mp hg with rfl | hg
    · rcases ha with rfl | rfl
      · exact Set.mem_insert_of_mem _ (Set.mem_insert _ _)
      · exact Set.mem_insert _ _
    · exact Set.mem_insert_of_mem _ (Set.mem_insert_of_mem _ ⟨g, hg, ha⟩)
  · show ((Function.update m.group tg _) m.rootTaskGroup).parent = none
    rw [Function.update_of_ne (fun heq : m.rootTaskGroup = tg => htg (heq ▸ h.root_mem))]
    exact h.parent_root
  · intro a c hc
    show ((Function.update m.group tg _) c).parent = some a
    by_cases hac : a = parent
    · rw [hac, Function.update_self] at hc
      rcases List.mem_cons.mp hc with rfl | hc
      · rw [Function.update_self, hac]
        rfl
      · rw [Function.update_of_ne (fun heq : c = tg => htg (heq ▸ h.kid_mem hc)), hac]
        exact h.parent parent c hc
    · rw [Function.update_of_ne hac] at hc
      rw [Function.update_of_ne (fun heq : c = tg => htg (heq ▸ h.kid_mem hc))]
      exact h.parent a c hc

/-- An empty list in memory is one of a group without children. -/
lemma Tree.kids_eq_nil (h : Tree m kids F) (htg : tg ∈ m.taskGroups)
    (hempty : listEmpty m.links (.head tg) = true) : kids tg = [] := by
  have hnext : m.links.next (.head tg) = .head tg := of_decide_eq_true hempty
  rw [h.next_head htg] at hnext
  cases hk : kids tg with
  | nil => rfl
  | cons c l =>
      rw [hk] at hnext
      nomatch hnext

/-- A group without children leaves the list of its parent. -/
theorem Tree.destroy (h : Tree m kids F) (htg : tg ∈ m.taskGroups) (hne : tg ≠ m.rootTaskGroup)
    (hempty : listEmpty m.links (.head tg) = true) :
    ∃ p F', tg ∈ kids p ∧ kids tg = [] ∧ Tree (schedDestroyGroup m tg)
      (Function.update kids p ((kids p).erase tg)) F' := by
  rcases h.exists_parent htg hne with ⟨p, hp⟩
  have hleaf := h.kids_eq_nil htg hempty
  have hnodup := h.perm.symm.nodup h.nodup
  have hremove : (cons m.rootTaskGroup F nil).removeLeaf tg
      = cons m.rootTaskGroup (F.removeLeaf tg) nil := by
    rw [removeLeaf, if_neg (Ne.symm hne)]
    rfl
  refine ⟨p, F.removeLeaf tg, hp, hleaf, ?_⟩
  have hnodupKids : ∀ a, (kids a).Nodup := by
    rcases h.links with ⟨L, hL, -⟩
    exact hL.nodup
  constructor
  · have hshape := h.shape.removeLeaf (x := tg) (p := p) hnodup fun a _ hap htga =>
      hap (h.parent_unique htga hp)
    rwa [hremove] at hshape
  · have hpre := preorder_removeLeaf h.shape hnodup hleaf
    rw [hremove] at hpre
    show (cons m.rootTaskGroup (F.removeLeaf tg) nil).preorder.Perm (m.taskGroups.erase tg)
    rw [hpre]
    exact h.perm.erase tg
  · exact h.nodup.erase tg
  · intro a ha
    by_cases hap : a = p
    · subst hap
      rcases eq_or_ne a tg with rfl | hat
      · rw [hleaf] at hp
        exact absurd hp List.not_mem_nil
      · exact absurd ((List.mem_erase_of_ne hat).mpr (h.mem_of_kids hp)) ha
    · rw [Function.update_of_ne hap]
      rcases eq_or_ne a tg with rfl | hat
      · exact hleaf
      · exact h.free a fun hmem => ha ((List.mem_erase_of_ne hat).mpr hmem)
  · rcases h.links with ⟨L, hL, hsame⟩
    refine ⟨listDelInit L (.node tg), hL.delInit hp, ?_⟩
    refine (hsame.listDelEntry ⟨tg, htg, .inr rfl⟩).mono ?_
    rintro a ⟨g, hg, ha⟩
    refine ⟨⟨g, List.mem_of_mem_erase hg, ha⟩, ?_⟩
    rintro rfl
    rcases ha with ha | ha
    · exact absurd ha (by simp)
    · obtain rfl := Node.node.inj ha
      exact h.nodup.not_mem_erase hg
  · exact h.parent_root
  · intro a c hc
    refine h.parent a c ?_
    by_cases hap : a = p
    · rw [hap, Function.update_self] at hc
      rw [hap]
      exact List.mem_of_mem_erase hc
    · rwa [Function.update_of_ne hap] at hc

/-! ## The visitors -/

lemma tgRtSchedulable_mem {d : RtSchedulableData G} {fuel : ℕ} {a : G} {ret : ℤ}
    (h : tgRtSchedulable cfg d fuel a m = .ok (ret, m')) : m' = m := by
  rw [tgRtSchedulable] at h
  dsimp only at h
  split_ifs at h
  · exact ((Prod.mk.inj (Except.ok.inj h)).2).symm
  · exact ((Prod.mk.inj (Except.ok.inj h)).2).symm
  · exact ((Prod.mk.inj (Except.ok.inj h)).2).symm
  · split at h
    · exact absurd h (by simp)
    · split_ifs at h
      · exact ((Prod.mk.inj (Except.ok.inj h)).2).symm
      · exact ((Prod.mk.inj (Except.ok.inj h)).2).symm

/-- The check of the real-time bandwidth writes nothing. -/
lemma rtSchedulable_mem {fuel : ℕ} {o : Option G} {period runtime : BitVec 64} {ret : ℤ}
    (h : rtSchedulable cfg fuel o period runtime m = .ok (ret, m')) : m' = m :=
  walkTgTreeFrom_writes (R := fun m m' => m' = m) (fun h h' => h'.trans h)
    (fun _ _ _ _ hv => tgRtSchedulable_mem hv)
    (fun _ _ _ _ hv => ((Prod.mk.inj (Except.ok.inj hv)).2).symm) fuel _ h

lemma sameTree_setHierarchalQuota (m : Mem G) (a : G) (q : BitVec 64) :
    SameTree m (setHierarchalQuota m a q) := sameTree_setGroup m a rfl

lemma keepsTree_tgCfsSchedulableDown (d : CfsSchedulableData G) :
    KeepsTree (tgCfsSchedulableDown cfg d) := by
  intro a m ret m' h
  rw [tgCfsSchedulableDown] at h
  dsimp only at h
  split at h
  · obtain ⟨-, rfl⟩ := Prod.mk.inj (Except.ok.inj h)
    exact sameTree_setHierarchalQuota m a _
  · split_ifs at h
    · obtain ⟨-, rfl⟩ := Prod.mk.inj (Except.ok.inj h)
      exact sameTree_setHierarchalQuota m a _
    · obtain ⟨-, rfl⟩ := Prod.mk.inj (Except.ok.inj h)
      exact .refl m
    · obtain ⟨-, rfl⟩ := Prod.mk.inj (Except.ok.inj h)
      exact sameTree_setHierarchalQuota m a _

end

end Groups
