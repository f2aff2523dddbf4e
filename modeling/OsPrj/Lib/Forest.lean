import Mathlib.Data.List.Nodup
import Mathlib.Data.Set.Card
import Mathlib.Logic.Relation

/-!
# Ordered forests

Finite ordered forests in first-child/next-sibling form, and how they describe a relation given
by a function `kids` from each node to the list of its children.

* `Forest.preorder`, `Forest.paths` — the nodes in depth-first preorder, alone and with the list
  of their ancestors.
* `Forest.Shape kids F` — every node of `F` has in `F` exactly the children `kids` lists.
* `Forest.mem_preorder_iff` — the preorder visits what **descends from a root**.
* `Forest.exists_subtree` — the nodes below a node are **a contiguous part** of the preorder.
* `Forest.nodup_preorder` — with one parent for each node nothing is visited twice.
* `Forest.ncard_ancestors` — the length of the path is the number of ancestors.
* `Forest.depths_injective` — the preorder with the depths determines **the ordered forest**.
* `Forest.exists_parent_index` — between a node and its parent the preorder has **only deeper
  nodes**.
* `Forest.sum_le_of_antichain` — what holds of a weight at each node holds of **any nodes side by
  side**.
* `Forest.limited_iff` — limits that respect the nearest limit above respect **every limit above**.
* `Forest.insertChild`, `Forest.removeLeaf` — a forest with a new first child of a node, and
  without a leaf, when `kids` changes in that way.
-/

/-- A list of ordered trees: a first tree with its root and the forest below it, and the rest. -/
inductive Forest (α : Type) where
  | nil
  | cons (a : α) (children rest : Forest α)

namespace Forest

open Relation

variable {α : Type}

/-- The roots, in order. -/
def roots : Forest α → List α
  | nil => []
  | cons a _ r => a :: r.roots

def size : Forest α → ℕ
  | nil => 0
  | cons _ c r => c.size + r.size + 1

/-- The nodes in depth-first preorder. -/
def preorder : Forest α → List α
  | nil => []
  | cons a c r => a :: (c.preorder ++ r.preorder)

/-- The nodes in depth-first preorder, each with its ancestors, nearest first; `anc` are the
nodes above the whole forest. -/
def paths (anc : List α) : Forest α → List (α × List α)
  | nil => []
  | cons a c r => (a, anc) :: (c.paths (a :: anc) ++ r.paths anc)

/-- The same forest under other labels. -/
def map {β : Type} (f : α → β) : Forest α → Forest β
  | nil => nil
  | cons a c r => cons (f a) (c.map f) (r.map f)

/-- The nodes in depth-first preorder, each with its depth; the roots are at depth `d`. -/
def depths (d : ℕ) : Forest α → List (α × ℕ)
  | nil => []
  | cons a c r => (a, d) :: (c.depths (d + 1) ++ r.depths d)

/-- In the forest every node has the children that `kids` lists. -/
def Shape (kids : α → List α) : Forest α → Prop
  | nil => True
  | cons a c r => kids a = c.roots ∧ c.Shape kids ∧ r.Shape kids

/-- `b` is a child of `a`. -/
def Child (kids : α → List α) (a b : α) : Prop := b ∈ kids a

@[simp] lemma length_preorder (F : Forest α) : F.preorder.length = F.size := by
  induction F with
  | nil => rfl
  | cons a c r ihc ihr => simp [preorder, size, ihc, ihr]

lemma map_fst_paths (F : Forest α) (anc : List α) : (F.paths anc).map Prod.fst = F.preorder := by
  induction F generalizing anc with
  | nil => rfl
  | cons a c r ihc ihr => simp [paths, preorder, ihc, ihr]

@[simp] lemma length_paths (F : Forest α) (anc : List α) : (F.paths anc).length = F.size := by
  rw [← length_preorder, ← map_fst_paths F anc, List.length_map]

lemma mem_preorder_of_root {F : Forest α} {t : α} (ht : t ∈ F.roots) : t ∈ F.preorder := by
  induction F with
  | nil => exact ht
  | cons a c r _ ihr =>
      rcases List.mem_cons.mp ht with rfl | ht
      · exact List.mem_cons_self
      · exact List.mem_cons_of_mem a (List.mem_append_right _ (ihr ht))

section Shape

variable {kids : α → List α} {F : Forest α}

/-- The children of a visited node are visited. -/
lemma mem_preorder_of_child (hF : F.Shape kids) {s t : α} (hs : s ∈ F.preorder)
    (ht : t ∈ kids s) : t ∈ F.preorder := by
  induction F with
  | nil => exact absurd hs (by simp [preorder])
  | cons a c r ihc ihr =>
      obtain ⟨hkids, hc, hr⟩ := hF
      rcases List.mem_cons.mp hs with rfl | hs
      · rw [hkids] at ht
        exact List.mem_cons_of_mem s (List.mem_append_left _ (mem_preorder_of_root ht))
      · rcases List.mem_append.mp hs with hs | hs
        · exact List.mem_cons_of_mem a (List.mem_append_left _ (ihc hc hs))
        · exact List.mem_cons_of_mem a (List.mem_append_right _ (ihr hr hs))

/-- Where a visited node comes from: it is a root, or its path is that of its parent. -/
lemma mem_paths_cases (hF : F.Shape kids) {t : α} {path anc : List α}
    (ht : (t, path) ∈ F.paths anc) :
    (t ∈ F.roots ∧ path = anc) ∨
      ∃ s up, (s, up) ∈ F.paths anc ∧ t ∈ kids s ∧ path = s :: up := by
  induction F generalizing anc with
  | nil => exact absurd ht (by simp [paths])
  | cons a c r ihc ihr =>
      obtain ⟨hkids, hc, hr⟩ := hF
      rcases List.mem_cons.mp ht with heq | ht
      · obtain ⟨rfl, rfl⟩ := Prod.mk.inj heq
        exact Or.inl ⟨List.mem_cons_self, rfl⟩
      rcases List.mem_append.mp ht with ht | ht
      · rcases ihc hc ht with ⟨hroot, rfl⟩ | ⟨s, up, hs, hts, rfl⟩
        · exact Or.inr ⟨a, anc, List.mem_cons_self, hkids ▸ hroot, rfl⟩
        · exact Or.inr ⟨s, up, List.mem_cons_of_mem _ (List.mem_append_left _ hs), hts, rfl⟩
      · rcases ihr hr ht with ⟨hroot, rfl⟩ | ⟨s, up, hs, hts, rfl⟩
        · exact Or.inl ⟨List.mem_cons_of_mem a hroot, rfl⟩
        · exact Or.inr ⟨s, up, List.mem_cons_of_mem _ (List.mem_append_right _ hs), hts, rfl⟩

lemma mem_preorder_iff_paths (anc : List α) {t : α} :
    t ∈ F.preorder ↔ ∃ path, (t, path) ∈ F.paths anc := by
  simp [← map_fst_paths F anc]

lemma mem_preorder_cases (hF : F.Shape kids) {t : α} (ht : t ∈ F.preorder) :
    t ∈ F.roots ∨ ∃ s ∈ F.preorder, t ∈ kids s := by
  obtain ⟨path, hp⟩ := (mem_preorder_iff_paths []).mp ht
  rcases mem_paths_cases hF hp with ⟨hroot, -⟩ | ⟨s, up, hs, hts, -⟩
  · exact Or.inl hroot
  · exact Or.inr ⟨s, (mem_preorder_iff_paths []).mpr ⟨up, hs⟩, hts⟩

lemma descends_of_mem (hF : F.Shape kids) {t : α} (ht : t ∈ F.preorder) :
    ∃ r ∈ F.roots, ReflTransGen (Child kids) r t := by
  induction F with
  | nil => exact absurd ht (by simp [preorder])
  | cons a c r ihc ihr =>
      obtain ⟨hkids, hc, hr⟩ := hF
      rcases List.mem_cons.mp ht with rfl | ht
      · exact ⟨t, List.mem_cons_self, .refl⟩
      rcases List.mem_append.mp ht with ht | ht
      · obtain ⟨x, hx, hxt⟩ := ihc hc ht
        have hax : Child kids a x := by
          show x ∈ kids a
          rwa [hkids]
        exact ⟨a, List.mem_cons_self, .head hax hxt⟩
      · obtain ⟨x, hx, hxt⟩ := ihr hr ht
        exact ⟨x, List.mem_cons_of_mem a hx, hxt⟩

/-- **The preorder visits exactly what descends from a root.** -/
theorem mem_preorder_iff (hF : F.Shape kids) {t : α} :
    t ∈ F.preorder ↔ ∃ r ∈ F.roots, ReflTransGen (Child kids) r t := by
  constructor
  · exact descends_of_mem hF
  · rintro ⟨r, hr, hrt⟩
    induction hrt with
    | refl => exact mem_preorder_of_root hr
    | tail _ hst ih => exact mem_preorder_of_child hF ih hst

/-- **A subtree is a contiguous part of the preorder.** -/
theorem exists_subtree (hF : F.Shape kids) {t : α} (ht : t ∈ F.preorder) :
    ∃ l₁ l₂ sub, F.preorder = l₁ ++ (t :: preorder sub) ++ l₂ ∧ sub.Shape kids ∧
      kids t = sub.roots := by
  induction F with
  | nil => exact absurd ht (by simp [preorder])
  | cons a c r ihc ihr =>
      obtain ⟨hkids, hc, hr⟩ := hF
      rcases List.mem_cons.mp ht with rfl | ht
      · exact ⟨[], r.preorder, c, rfl, hc, hkids⟩
      rcases List.mem_append.mp ht with ht | ht
      · obtain ⟨l₁, l₂, sub, heq, hsub, hroots⟩ := ihc hc ht
        refine ⟨a :: l₁, l₂ ++ r.preorder, sub, ?_, hsub, hroots⟩
        simp [preorder, heq]
      · obtain ⟨l₁, l₂, sub, heq, hsub, hroots⟩ := ihr hr ht
        refine ⟨a :: (c.preorder ++ l₁), l₂, sub, ?_, hsub, hroots⟩
        simp [preorder, heq]

/-- In a list without repetition the members of a contiguous part are those at its indices. -/
lemma getElem_mem_iff {l₁ m l₂ : List α} (hnodup : (l₁ ++ m ++ l₂).Nodup) {j : ℕ}
    (hj : j < (l₁ ++ m ++ l₂).length) :
    (l₁ ++ m ++ l₂)[j] ∈ m ↔ l₁.length ≤ j ∧ j < l₁.length + m.length := by
  have hmid : ∀ n (hn : n < m.length) (hn' : l₁.length + n < (l₁ ++ m ++ l₂).length),
      (l₁ ++ m ++ l₂)[l₁.length + n] = m[n] := by
    intro n hn hn'
    rw [List.getElem_append_left (by simp; omega), List.getElem_append_right (by omega)]
    simp
  constructor
  · intro hmem
    obtain ⟨n, hn, heq⟩ := List.getElem_of_mem hmem
    rw [← hmid n hn (by simp; omega), hnodup.getElem_inj_iff] at heq
    omega
  · rintro ⟨hlo, hhi⟩
    obtain ⟨n, rfl⟩ := Nat.exists_eq_add_of_le hlo
    rw [hmid n (by omega) hj]
    exact List.getElem_mem _

/-- **The indices of the nodes below a node are contiguous** and start with its own. -/
theorem descends_iff_index (hF : F.Shape kids) (hnodup : F.preorder.Nodup) {i : ℕ}
    (hi : i < F.preorder.length) :
    ∃ n, ∀ j (hj : j < F.preorder.length),
      ReflTransGen (Child kids) F.preorder[i] F.preorder[j] ↔ i ≤ j ∧ j < i + n := by
  obtain ⟨l₁, l₂, sub, heq, hsub, hroots⟩ := exists_subtree hF (List.getElem_mem hi)
  set t := F.preorder[i] with ht
  have hsplit : F.preorder = l₁ ++ preorder (cons t sub nil) ++ l₂ := by
    simpa [preorder] using heq
  have hdesc : ∀ s, ReflTransGen (Child kids) t s ↔ s ∈ preorder (cons t sub nil) := by
    intro s
    have hshape : (cons t sub nil).Shape kids := ⟨hroots, hsub, trivial⟩
    rw [mem_preorder_iff hshape]
    simp [roots]
  have hindex : ∀ j (hj : j < F.preorder.length), F.preorder[j] ∈ preorder (cons t sub nil) ↔
      l₁.length ≤ j ∧ j < l₁.length + (preorder (cons t sub nil)).length := by
    rw [hsplit] at hnodup
    intro j hj
    simp only [hsplit]
    exact getElem_mem_iff hnodup _
  -- `t` itself is at the first index of the part
  have hfirst : i = l₁.length := by
    have hl : l₁.length < F.preorder.length := by
      rw [hsplit]
      simp [preorder]
    have : F.preorder[l₁.length] = F.preorder[i] := by
      rw [← ht]
      simp [hsplit, preorder]
    exact (hnodup.getElem_inj_iff.mp this).symm
  refine ⟨(preorder (cons t sub nil)).length, fun j hj => ?_⟩
  rw [hdesc, hindex j hj, hfirst]

end Shape

/-! ## One parent for each node -/

section UniqueParent

variable {kids : α → List α} {F : Forest α}

/-- Nothing is visited twice, when a node has one parent at most and no root is a child of a
node of the forest. -/
theorem nodup_preorder (hkids : ∀ a, (kids a).Nodup)
    (hparent : ∀ {a b t}, t ∈ kids a → t ∈ kids b → a = b) (hF : F.Shape kids)
    (hnodup : F.roots.Nodup) (hroots : ∀ r ∈ F.roots, ∀ s ∈ F.preorder, r ∉ kids s) :
    F.preorder.Nodup := by
  induction F with
  | nil => exact List.nodup_nil
  | cons a c r ihc ihr =>
      obtain ⟨hka, hc, hr⟩ := hF
      obtain ⟨har, hnodup⟩ := List.nodup_cons.mp hnodup
      -- a root of the forest is a root of each part that visits it
      have hin : ∀ (G : Forest α), G.Shape kids → (∀ s ∈ G.preorder, s ∈ (cons a c r).preorder) →
          ∀ x ∈ (cons a c r).roots, x ∈ G.preorder → x ∈ G.roots := by
        intro G hG hsub x hx hxG
        rcases mem_preorder_cases hG hxG with h | ⟨s, hs, hxs⟩
        · exact h
        · exact absurd hxs (hroots x hx s (hsub s hs))
      have hsubc : ∀ s ∈ c.preorder, s ∈ (cons a c r).preorder := fun s hs =>
        List.mem_cons_of_mem a (List.mem_append_left _ hs)
      have hsubr : ∀ s ∈ r.preorder, s ∈ (cons a c r).preorder := fun s hs =>
        List.mem_cons_of_mem a (List.mem_append_right _ hs)
      have hc_root : ∀ x ∈ (cons a c r).roots, x ∉ c.preorder := by
        intro x hx hxc
        have hxr := hin c hc hsubc x hx hxc
        rw [← hka] at hxr
        exact hroots x hx a List.mem_cons_self hxr
      have hac : a ∉ c.preorder := hc_root a List.mem_cons_self
      have har' : a ∉ r.preorder := fun h => har (hin r hr hsubr a List.mem_cons_self h)
      have hdisj : ∀ t ∈ r.preorder, t ∉ c.preorder := by
        intro t ht
        obtain ⟨x, hx, hxt⟩ := descends_of_mem hr ht
        induction hxt with
        | refl => exact hc_root x (List.mem_cons_of_mem a hx)
        | @tail s t hxs hst ih =>
            have hs : s ∈ r.preorder := (mem_preorder_iff hr).mpr ⟨x, hx, hxs⟩
            intro htc
            rcases mem_preorder_cases hc htc with hroot | ⟨s', hs', hts'⟩
            · rw [← hka] at hroot
              exact har' (hparent hroot hst ▸ hs)
            · exact ih hs (hparent hts' hst ▸ hs')
      have hcn : c.preorder.Nodup := by
        refine ihc hc (hka ▸ hkids a) ?_
        intro x hx s hs hxs
        rw [← hka] at hx
        exact hac (hparent hx hxs ▸ hs)
      have hrn : r.preorder.Nodup :=
        ihr hr hnodup fun x hx s hs => hroots x (List.mem_cons_of_mem a hx) s (hsubr s hs)
      refine List.nodup_cons.mpr ⟨?_, hcn.append hrn fun t htc htr => hdisj t htr htc⟩
      rw [List.mem_append]
      rintro (h | h)
      · exact hac h
      · exact har' h

variable (hparent : ∀ {a b t}, t ∈ kids a → t ∈ kids b → a = b)
  (hF : F.Shape kids) (hroots : ∀ r ∈ F.roots, ∀ s, r ∉ kids s)

include hparent in
lemma transGen_iff_of_parent {p s t : α} (hst : t ∈ kids s) :
    TransGen (Child kids) p t ↔ ReflTransGen (Child kids) p s := by
  constructor
  · intro h
    obtain ⟨q, hpq, hqt⟩ := TransGen.tail'_iff.mp h
    rwa [hparent hst hqt]
  · exact fun h => TransGen.tail' h hst

include hparent hF hroots

/-- The path of a node lists its ancestors. -/
lemma mem_path_iff {t : α} {path : List α} (ht : (t, path) ∈ F.paths []) {p : α} :
    p ∈ path ↔ TransGen (Child kids) p t := by
  induction path generalizing t with
  | nil =>
      rcases mem_paths_cases hF ht with ⟨hroot, -⟩ | ⟨s, up, -, -, heq⟩
      · refine ⟨fun h => absurd h (by simp), fun h => ?_⟩
        obtain ⟨s, -, hst⟩ := TransGen.tail'_iff.mp h
        exact absurd hst (hroots t hroot s)
      · exact absurd heq (by simp)
  | cons q up ih =>
      rcases mem_paths_cases hF ht with ⟨-, heq⟩ | ⟨s, up', hs, hts, heq⟩
      · exact absurd heq (by simp)
      · obtain ⟨rfl, rfl⟩ := List.cons.inj heq
        rw [transGen_iff_of_parent hparent hts, List.mem_cons, ih hs,
          reflTransGen_iff_eq_or_transGen, eq_comm]

/-- No node is above itself. -/
lemma not_transGen_self {t : α} {path : List α} (ht : (t, path) ∈ F.paths []) :
    ¬ TransGen (Child kids) t t := by
  induction path generalizing t with
  | nil =>
      rw [← mem_path_iff hparent hF hroots ht]
      exact List.not_mem_nil
  | cons q up ih =>
      rcases mem_paths_cases hF ht with ⟨-, heq⟩ | ⟨s, up', hs, hts, heq⟩
      · exact absurd heq (by simp)
      · obtain ⟨rfl, rfl⟩ := List.cons.inj heq
        rw [transGen_iff_of_parent hparent hts]
        exact fun h => ih hs (TransGen.head' hts h)

lemma nodup_path {t : α} {path : List α} (ht : (t, path) ∈ F.paths []) : path.Nodup := by
  induction path generalizing t with
  | nil => exact List.nodup_nil
  | cons q up ih =>
      rcases mem_paths_cases hF ht with ⟨-, heq⟩ | ⟨s, up', hs, -, heq⟩
      · exact absurd heq (by simp)
      · obtain ⟨rfl, rfl⟩ := List.cons.inj heq
        refine List.nodup_cons.mpr ⟨?_, ih hs⟩
        rw [mem_path_iff hparent hF hroots hs]
        exact not_transGen_self hparent hF hroots hs

/-- **The length of the path is the number of ancestors.** -/
theorem ncard_ancestors {t : α} {path : List α} (ht : (t, path) ∈ F.paths []) :
    {p | TransGen (Child kids) p t}.ncard = path.length := by
  classical
  have hset : {p | TransGen (Child kids) p t} = ↑path.toFinset := by
    ext p
    rw [Set.mem_ofPred_eq, ← mem_path_iff hparent hF hroots ht, Finset.mem_coe, List.mem_toFinset]
  rw [hset, Set.ncard_coe_finset, List.toFinset_card_of_nodup]
  exact nodup_path hparent hF hroots ht

end UniqueParent

/-! ## Reading the forest back from the depths -/

section Depths

/-- What follows the part of a listing that belongs to a forest at depth `d` is nothing, or goes
back up. -/
def Shallower (d : ℕ) (l : List (α × ℕ)) : Prop := ∀ e ∈ l.head?, e.2 < d

lemma shallower_nil (d : ℕ) : Shallower d ([] : List (α × ℕ)) := by
  intro e he
  exact absurd he (by simp)

lemma shallower_depths_append {d : ℕ} (F : Forest α) {l : List (α × ℕ)} (hl : Shallower d l) :
    Shallower (d + 1) (F.depths d ++ l) := by
  cases F with
  | nil =>
      intro e he
      exact Nat.lt_succ_of_lt (hl e he)
  | cons a c r =>
      intro e he
      obtain rfl : (a, d) = e := by simpa [depths] using he
      exact Nat.lt_succ_self d

/-- A forest and the end of its part of a listing are determined together. -/
lemma depths_append_injective {F G : Forest α} {d : ℕ} {l l' : List (α × ℕ)}
    (hl : Shallower d l) (hl' : Shallower d l') (heq : F.depths d ++ l = G.depths d ++ l') :
    F = G ∧ l = l' := by
  induction F generalizing G d l l' with
  | nil =>
      cases G with
      | nil => exact ⟨rfl, heq⟩
      | cons b c' r' =>
          have hmem : (b, d) ∈ l.head? := by
            simp only [depths, List.nil_append] at heq
            simp [heq]
          exact absurd (hl _ hmem) (lt_irrefl d)
  | cons a c r ihc ihr =>
      cases G with
      | nil =>
          have hmem : (a, d) ∈ l'.head? := by
            simp only [depths, List.nil_append] at heq
            simp [← heq]
          exact absurd (hl' _ hmem) (lt_irrefl d)
      | cons b c' r' =>
          simp only [depths, List.cons_append, List.append_assoc] at heq
          obtain ⟨hab, hbelow⟩ := List.cons.inj heq
          obtain ⟨rfl, -⟩ := Prod.mk.inj hab
          -- the part below the first root ends where the depth is `d` again
          obtain ⟨rfl, hrest⟩ := ihc (shallower_depths_append r hl)
            (shallower_depths_append r' hl') hbelow
          obtain ⟨rfl, rfl⟩ := ihr hl hl' hrest
          exact ⟨rfl, rfl⟩

/-- **Nothing of an ordered forest is lost in the preorder with the depths.** -/
theorem depths_injective (d : ℕ) : Function.Injective (depths d : Forest α → List (α × ℕ)) := by
  intro F G heq
  refine (depths_append_injective (shallower_nil d) (shallower_nil d) ?_).1
  rw [List.append_nil, List.append_nil]
  exact heq

lemma le_length_of_mem_paths {F : Forest α} {anc : List α} {e : α × List α}
    (he : e ∈ F.paths anc) : anc.length ≤ e.2.length := by
  induction F generalizing anc with
  | nil => exact absurd he (by simp [paths])
  | cons a c r ihc ihr =>
      rcases List.mem_cons.mp he with rfl | he
      · exact le_rfl
      rcases List.mem_append.mp he with he | he
      · have := ihc he
        rw [List.length_cons] at this
        omega
      · exact ihr he

/-- A node below the roots comes after its parent, and what stands between the two is deeper than
the parent. -/
lemma exists_parent {kids : α → List α} {F : Forest α} (hF : F.Shape kids) {anc : List α}
    {pre post : List (α × List α)} {t : α} {path : List α}
    (hsplit : F.paths anc = pre ++ (t, path) :: post) :
    (t ∈ F.roots ∧ path = anc) ∨ ∃ s up l₁ l₂, path = s :: up ∧ t ∈ kids s ∧
      pre = l₁ ++ (s, up) :: l₂ ∧ ∀ e ∈ l₂, up.length < e.2.length := by
  induction F generalizing anc pre post with
  | nil => exact absurd hsplit (by simp [paths])
  | cons a c r ihc ihr =>
      obtain ⟨hkids, hc, hr⟩ := hF
      rw [paths] at hsplit
      cases pre with
      | nil =>
          obtain ⟨heq, -⟩ := List.cons.inj hsplit
          obtain ⟨rfl, rfl⟩ := Prod.mk.inj heq
          exact Or.inl ⟨List.mem_cons_self, rfl⟩
      | cons e pre =>
          rw [List.cons_append] at hsplit
          obtain ⟨rfl, htail⟩ := List.cons.inj hsplit
          have hrest : ∀ m, r.paths anc = m ++ (t, path) :: post → pre = c.paths (a :: anc) ++ m →
              (t ∈ (cons a c r).roots ∧ path = anc) ∨ ∃ s up l₁ l₂, path = s :: up ∧ t ∈ kids s ∧
                (a, anc) :: pre = l₁ ++ (s, up) :: l₂ ∧ ∀ e ∈ l₂, up.length < e.2.length := by
            rintro m hm rfl
            rcases ihr hr hm with ⟨hroot, rfl⟩ | ⟨s, up, l₁, l₂, rfl, hts, rfl, hdeep⟩
            · exact Or.inl ⟨List.mem_cons_of_mem a hroot, rfl⟩
            · refine Or.inr ⟨s, up, (a, anc) :: (c.paths (a :: anc) ++ l₁), l₂, rfl, hts, ?_, hdeep⟩
              simp
          rcases List.append_eq_append_iff.mp htail with ⟨m, hpre, hm⟩ | ⟨m, hm, hpost⟩
          · exact hrest m hm hpre
          cases m with
          | nil => exact hrest [] (by simpa using hpost.symm) (by simpa using hm.symm)
          | cons e m =>
              rw [List.cons_append] at hpost
              obtain ⟨rfl, -⟩ := List.cons.inj hpost
              refine Or.inr ?_
              rcases ihc hc hm with ⟨hroot, rfl⟩ | ⟨s, up, l₁, l₂, rfl, hts, rfl, hdeep⟩
              · refine ⟨a, anc, [], pre, rfl, hkids ▸ hroot, rfl, fun e he => ?_⟩
                have hmem : e ∈ c.paths (a :: anc) := by
                  rw [hm]
                  exact List.mem_append_left _ he
                have hlen := le_length_of_mem_paths hmem
                rw [List.length_cons] at hlen
                omega
              · exact ⟨s, up, (a, anc) :: l₁, l₂, rfl, hts, rfl, hdeep⟩

/-- **The nearest earlier node of one less depth is the parent**: everything between the two is
deeper than the parent. -/
theorem exists_parent_index {kids : α → List α} {F : Forest α} (hF : F.Shape kids)
    {anc : List α} {i : ℕ} (hi : i < (F.paths anc).length)
    (hbelow : anc.length < (F.paths anc)[i].2.length) :
    ∃ j, ∃ hj : j < i, (F.paths anc)[i].1 ∈ kids (F.paths anc)[j].1 ∧
      (F.paths anc)[j].2.length + 1 = (F.paths anc)[i].2.length ∧
      ∀ m (hm : m < i), j < m → (F.paths anc)[j].2.length < (F.paths anc)[m].2.length := by
  have hsplit : F.paths anc = (F.paths anc).take i ++ (F.paths anc)[i] ::
      (F.paths anc).drop (i + 1) := by simp
  rcases exists_parent hF hsplit with ⟨-, hanc⟩ | ⟨s, up, l₁, l₂, hpath, hts, hpre, hdeep⟩
  · have hlength : (F.paths anc)[i].2.length = anc.length := congrArg List.length hanc
    omega
  have hlen : i = l₁.length + (l₂.length + 1) := by
    have := congrArg List.length hpre
    rw [List.length_take, min_eq_left hi.le, List.length_append, List.length_cons] at this
    exact this
  -- the entries before `i`, read off the split
  have htake : ∀ m (hm : m < i) (hm' : m < (l₁ ++ (s, up) :: l₂).length),
      (F.paths anc)[m] = (l₁ ++ (s, up) :: l₂)[m] := by
    intro m hm hm'
    simp only [← hpre, List.getElem_take]
  have hlen' : (l₁ ++ (s, up) :: l₂).length = i := by
    rw [List.length_append, List.length_cons, hlen]
  have hj : l₁.length < i := by omega
  have hparent : (F.paths anc)[l₁.length] = (s, up) := by
    rw [htake l₁.length hj (by omega)]
    simp
  refine ⟨l₁.length, hj, ?_, ?_, ?_⟩
  · rw [hparent]
    exact hts
  · rw [hparent]
    exact (congrArg List.length hpath).symm
  · intro m hm hjm
    rw [hparent, htake m hm (by omega)]
    refine hdeep _ ?_
    obtain ⟨n, rfl⟩ := Nat.exists_eq_add_of_lt hjm
    rw [List.getElem_append_right (by omega)]
    simp only [show l₁.length + n + 1 - l₁.length = n + 1 by omega, List.getElem_cons_succ]
    exact List.getElem_mem _

end Depths

/-! ## Weights -/

/-- **A weight that the children of no node exceed together is not exceeded by any nodes of which
none is below another.** -/
theorem sum_le_of_antichain [DecidableEq α] {kids : α → List α} {F : Forest α} {w : α → ℕ}
    (hF : F.Shape kids) (hw : ∀ a ∈ F.preorder, ((kids a).map w).sum ≤ w a) {S : Finset α}
    (hS : ∀ a ∈ S, ∀ b ∈ S, ¬TransGen (Child kids) a b) :
    ((F.preorder.filter (· ∈ S)).map w).sum ≤ (F.roots.map w).sum := by
  induction F with
  | nil => exact le_rfl
  | cons a c r ihc ihr =>
      rcases hF with ⟨hka, hc, hr⟩
      have hbelow := ihc hc fun b hb =>
        hw b (List.mem_cons_of_mem a (List.mem_append_left _ hb))
      have hrest := ihr hr fun b hb =>
        hw b (List.mem_cons_of_mem a (List.mem_append_right _ hb))
      have hchildren := hw a List.mem_cons_self
      rw [hka] at hchildren
      simp only [preorder, roots, List.filter_cons, List.filter_append, List.map_cons,
        List.sum_cons]
      split_ifs with ha
      · have hnone : c.preorder.filter (· ∈ S) = [] := by
          refine List.filter_eq_nil_iff.mpr fun t ht hmem => ?_
          rcases descends_of_mem hc ht with ⟨x, hx, hxt⟩
          rw [← hka] at hx
          exact hS a (by simpa using ha) t (by simpa using hmem) (.head' hx hxt)
        rw [hnone, List.nil_append, List.map_cons, List.sum_cons]
        omega
      · rw [List.map_append, List.sum_append]
        omega

/-! ## Inherited limits -/

section Limits

variable {β : Type} [LinearOrder β] {l : α → Option β}

/-- No node has a limit above the nearest limit over it; `q` is the nearest one over the forest. -/
def Limited (l : α → Option β) (q : Option β) : Forest α → Prop
  | nil => True
  | cons a c r => (∀ x ∈ l a, ∀ y ∈ q, x ≤ y) ∧ c.Limited l ((l a).or q) ∧ r.Limited l q

/-- `q` is the least of the limits of `anc`. -/
structure Least (l : α → Option β) (anc : List α) (q : Option β) : Prop where
  mem : ∀ y ∈ q, ∃ p ∈ anc, y ∈ l p
  le : ∀ p ∈ anc, ∀ y ∈ l p, ∃ z ∈ q, z ≤ y

lemma least_nil : Least l [] none := ⟨fun _ hy => by simp at hy, fun _ hp => by simp at hp⟩

lemma Least.head_iff {anc : List α} {q : Option β} (h : Least l anc q) (a : α) :
    (∀ x ∈ l a, ∀ y ∈ q, x ≤ y) ↔ ∀ x ∈ l a, ∀ p ∈ anc, ∀ y ∈ l p, x ≤ y := by
  constructor
  · intro hx x hxa p hp y hy
    rcases h.le p hp y hy with ⟨z, hz, hzy⟩
    exact (hx x hxa z hz).trans hzy
  · intro hx x hxa y hy
    rcases h.mem y hy with ⟨p, hp, hyp⟩
    exact hx x hxa p hp y hyp

lemma Least.cons {anc : List α} {q : Option β} (h : Least l anc q) {a : α}
    (hx : ∀ x ∈ l a, ∀ p ∈ anc, ∀ y ∈ l p, x ≤ y) : Least l (a :: anc) ((l a).or q) := by
  cases ha : l a with
  | none =>
      rw [Option.none_or]
      refine ⟨fun y hy => ?_, fun p hp y hy => ?_⟩
      · rcases h.mem y hy with ⟨p, hp, hyp⟩
        exact ⟨p, List.mem_cons_of_mem a hp, hyp⟩
      · rcases List.mem_cons.mp hp with rfl | hp
        · rw [ha] at hy
          simp at hy
        · exact h.le p hp y hy
  | some x =>
      rw [Option.some_or]
      refine ⟨fun y hy => ⟨a, List.mem_cons_self, ha.trans hy⟩, fun p hp y hy => ?_⟩
      rcases List.mem_cons.mp hp with rfl | hp
      · exact ⟨y, ha.symm.trans hy, le_rfl⟩
      · exact ⟨x, rfl, hx x ha p hp y hy⟩

/-- **It is enough to compare each limit with the nearest one above.** -/
theorem limited_iff {F : Forest α} {anc : List α} {q : Option β} (h : Least l anc q) :
    F.Limited l q ↔ ∀ e ∈ F.paths anc, ∀ x ∈ l e.1, ∀ p ∈ e.2, ∀ y ∈ l p, x ≤ y := by
  induction F generalizing anc q with
  | nil => simp [Limited, paths]
  | cons a c r ihc ihr =>
      simp only [Limited, paths, List.forall_mem_cons, List.forall_mem_append]
      rw [h.head_iff a]
      refine and_congr_right fun ha => ?_
      rw [ihc (h.cons ha), ihr h]

end Limits

/-! ## Nodes that come and go -/

section Edits

variable {kids kids' : α → List α} {F : Forest α} {p x : α}

/-- The shape depends on the children of the nodes in the forest. -/
lemma Shape.congr (hF : F.Shape kids) (h : ∀ a ∈ F.preorder, kids' a = kids a) :
    F.Shape kids' := by
  induction F with
  | nil => trivial
  | cons a c r ihc ihr =>
      rcases hF with ⟨hka, hc, hr⟩
      refine ⟨(h a List.mem_cons_self).trans hka, ihc hc fun b hb => ?_, ihr hr fun b hb => ?_⟩
      · exact h b (List.mem_cons_of_mem a (List.mem_append_left _ hb))
      · exact h b (List.mem_cons_of_mem a (List.mem_append_right _ hb))

lemma eq_nil_of_roots (h : F.roots = []) : F = nil := by
  cases F with
  | nil => rfl
  | cons a c r => exact absurd h (by simp [roots])

variable [DecidableEq α]

/-- The forest with `x` as the first child of `p`. -/
def insertChild (p x : α) : Forest α → Forest α
  | nil => nil
  | cons a c r =>
      if a = p then cons a (cons x nil c) r else cons a (c.insertChild p x) (r.insertChild p x)

@[simp] lemma roots_insertChild (p x : α) (F : Forest α) : (F.insertChild p x).roots = F.roots := by
  induction F with
  | nil => rfl
  | cons a c r _ ihr =>
      rw [insertChild]
      split_ifs
      · rfl
      · rw [roots, roots, ihr]

lemma insertChild_of_notMem (hp : p ∉ F.preorder) : F.insertChild p x = F := by
  induction F with
  | nil => rfl
  | cons a c r ihc ihr =>
      simp only [preorder, List.mem_cons, List.mem_append, not_or] at hp
      rw [insertChild, if_neg (Ne.symm hp.1), ihc hp.2.1, ihr hp.2.2]

/-- **A new child is one more node.** -/
theorem preorder_insertChild_perm (hp : p ∈ F.preorder) (hnodup : F.preorder.Nodup) :
    (F.insertChild p x).preorder.Perm (x :: F.preorder) := by
  induction F with
  | nil => exact absurd hp List.not_mem_nil
  | cons a c r ihc ihr =>
      rcases List.nodup_cons.mp hnodup with ⟨-, hcr⟩
      rcases List.nodup_append.mp hcr with ⟨hc, hr, hdisjoint⟩
      rw [insertChild]
      split_ifs with ha
      · exact List.Perm.swap x a _
      · have hswap : (a :: x :: (c.preorder ++ r.preorder)).Perm (x :: (cons a c r).preorder) :=
          List.Perm.swap x a _
        refine List.Perm.trans (List.Perm.cons a ?_) hswap
        rcases List.mem_append.mp ((List.mem_cons.mp hp).resolve_left (Ne.symm ha)) with hpc | hpr
        · have hpr : p ∉ r.preorder := fun h => hdisjoint p hpc p h rfl
          rw [insertChild_of_notMem hpr]
          exact (ihc hpc hc).append_right r.preorder
        · have hpc : p ∉ c.preorder := fun h => hdisjoint p h p hpr rfl
          rw [insertChild_of_notMem hpc]
          exact ((ihr hpr hr).append_left c.preorder).trans List.perm_middle

/-- **The shape with a new child.** -/
theorem Shape.insertChild (hF : F.Shape kids) (hnodup : F.preorder.Nodup) (hx : x ∉ F.preorder)
    (hleaf : kids x = []) (hxp : x ≠ p) :
    (F.insertChild p x).Shape (Function.update kids p (x :: kids p)) := by
  have hother : ∀ G : Forest α, p ∉ G.preorder → G.Shape kids →
      G.Shape (Function.update kids p (x :: kids p)) := fun G hp hG =>
    hG.congr fun a ha => Function.update_of_ne (fun h : a = p => hp (h ▸ ha)) _ _
  induction F with
  | nil => trivial
  | cons a c r ihc ihr =>
      rcases hF with ⟨hka, hc, hr⟩
      simp only [preorder, List.mem_cons, List.mem_append, not_or] at hx
      rcases List.nodup_cons.mp hnodup with ⟨ha, hcr⟩
      rcases List.nodup_append.mp hcr with ⟨hcn, hrn, -⟩
      rw [List.mem_append, not_or] at ha
      rw [Forest.insertChild]
      split_ifs with hap
      · subst hap
        refine ⟨?_, ⟨?_, trivial, hother c ha.1 hc⟩, hother r ha.2 hr⟩
        · rw [Function.update_self, hka]
          rfl
        · rw [Function.update_of_ne hxp, hleaf]
          rfl
      · refine ⟨?_, ihc hc hcn hx.2.1, ihr hr hrn hx.2.2⟩
        rw [Function.update_of_ne hap, hka, roots_insertChild]

/-- The forest without the leaf `x`. -/
def removeLeaf (x : α) : Forest α → Forest α
  | nil => nil
  | cons a c r => if a = x then r.removeLeaf x else cons a (c.removeLeaf x) (r.removeLeaf x)

lemma removeLeaf_of_notMem (hx : x ∉ F.preorder) : F.removeLeaf x = F := by
  induction F with
  | nil => rfl
  | cons a c r ihc ihr =>
      simp only [preorder, List.mem_cons, List.mem_append, not_or] at hx
      rw [removeLeaf, if_neg (Ne.symm hx.1), ihc hx.2.1, ihr hx.2.2]

lemma roots_removeLeaf (hnodup : F.roots.Nodup) (x : α) :
    (F.removeLeaf x).roots = F.roots.erase x := by
  induction F with
  | nil => rfl
  | cons a c r _ ihr =>
      rcases List.nodup_cons.mp hnodup with ⟨ha, hr⟩
      rw [removeLeaf, roots]
      split_ifs with hax
      · subst hax
        rw [ihr hr, List.erase_cons_head, List.erase_of_not_mem ha]
      · rw [roots, ihr hr, List.erase_cons_tail (by simpa using hax)]

/-- **One node less.** -/
theorem preorder_removeLeaf (hF : F.Shape kids) (hnodup : F.preorder.Nodup) (hleaf : kids x = []) :
    (F.removeLeaf x).preorder = F.preorder.erase x := by
  induction F with
  | nil => rfl
  | cons a c r ihc ihr =>
      rcases hF with ⟨hka, hc, hr⟩
      rcases List.nodup_cons.mp hnodup with ⟨ha, hcr⟩
      rcases List.nodup_append.mp hcr with ⟨hcn, hrn, hdisjoint⟩
      rw [removeLeaf, preorder]
      split_ifs with hax
      · subst hax
        obtain rfl := eq_nil_of_roots (hka.symm.trans hleaf)
        have har : a ∉ r.preorder := fun h => ha (List.mem_append_right _ h)
        rw [removeLeaf_of_notMem har, List.erase_cons_head]
        rfl
      · rw [List.erase_cons_tail (by simpa using hax), preorder, ihc hc hcn, ihr hr hrn]
        by_cases hxc : x ∈ c.preorder
        · have hxr : x ∉ r.preorder := fun h => hdisjoint x hxc x h rfl
          rw [List.erase_append_left _ hxc, List.erase_of_not_mem hxr]
        · rw [List.erase_append_right _ hxc, List.erase_of_not_mem hxc]

omit [DecidableEq α] in
lemma roots_sublist_preorder (F : Forest α) : F.roots.Sublist F.preorder := by
  induction F with
  | nil => exact .slnil
  | cons a c r _ ihr => exact (ihr.trans (List.sublist_append_right _ _)).cons_cons a

/-- **The shape without a leaf**, which is a child of `p` alone. -/
theorem Shape.removeLeaf (hF : F.Shape kids) (hnodup : F.preorder.Nodup)
    (hparent : ∀ a ∈ F.preorder, a ≠ p → x ∉ kids a) :
    (F.removeLeaf x).Shape (Function.update kids p ((kids p).erase x)) := by
  induction F with
  | nil => trivial
  | cons a c r ihc ihr =>
      rcases hF with ⟨hka, hc, hr⟩
      rcases List.nodup_cons.mp hnodup with ⟨-, hcr⟩
      rcases List.nodup_append.mp hcr with ⟨hcn, hrn, -⟩
      have hpc : ∀ b ∈ c.preorder, b ≠ p → x ∉ kids b := fun b hb =>
        hparent b (List.mem_cons_of_mem a (List.mem_append_left _ hb))
      have hpr : ∀ b ∈ r.preorder, b ≠ p → x ∉ kids b := fun b hb =>
        hparent b (List.mem_cons_of_mem a (List.mem_append_right _ hb))
      rw [Forest.removeLeaf]
      split_ifs with hax
      · exact ihr hr hrn hpr
      · refine ⟨?_, ihc hc hcn hpc, ihr hr hrn hpr⟩
        rw [roots_removeLeaf ((roots_sublist_preorder c).nodup hcn), ← hka]
        by_cases hap : a = p
        · rw [hap, Function.update_self]
        · rw [Function.update_of_ne hap]
          exact (List.erase_of_not_mem (hparent a List.mem_cons_self hap)).symm

end Edits

end Forest
