import TechScreen.Rubric.Materialise

/-!
# Where Nodes Are Stored

A stored tree says of every row under which row it is, and a document says of
every node under which node it should be. The importer finds a place for a node
whose parent is nothing, a block, or the child of a block, and passes every other
node over; and it looks at the levels of the nodes under a block only.

## Main definitions

* `StackTree.placements`, `StackTree.listing`: The rows of a tree, each with the
  name of what it is under, and its levels.
* `Document.Placed`: The importer finds a place for the node.

## Theorems

* `Document.tree_placements`: The rows of the tree of a document.
* `Document.tree_listing`: The levels of the tree of a document.
* `Document.rooted_iff`: When there is a place for every node.
* `Document.tree_names`: The names in the tree of a document with a place for
  every node.
-/

namespace TechScreen.Rubric

open Lib

section Trees

/-- What is stored and under what, by their names. -/
abbrev Placement := Option String × String

def CompetencyTree.placements (c : CompetencyTree) : Multiset Placement :=
  c.topics.map (fun topic => (some c.name, topic))

def BlockTree.placements (b : BlockTree) : Multiset Placement :=
  b.competencies.bind (fun c => (some b.name, c.name) ::ₘ c.placements)

/-- The rows of a tree, each with the name of what it is under. -/
def StackTree.placements (s : StackTree) : Multiset Placement :=
  s.competencyBlocks.bind (fun b => (none, b.name) ::ₘ b.placements)

/-- A level that is stored for a name. -/
abbrev Listing := String × Nat × String

def CompetencyTree.listing (c : CompetencyTree) : Multiset Listing :=
  c.levels.map (fun l => (c.name, l))

def BlockTree.listing (b : BlockTree) : Multiset Listing :=
  b.competencies.bind CompetencyTree.listing

/-- The levels of a tree, each with the name of its competency. -/
def StackTree.listing (s : StackTree) : Multiset Listing :=
  s.competencyBlocks.bind BlockTree.listing

/-- The ids that a tree has, those of the blocks, the competencies and the
    topics. -/
def CompetencyTree.names (c : CompetencyTree) : Multiset String := c.name ::ₘ c.topics

def BlockTree.names (b : BlockTree) : Multiset String :=
  b.name ::ₘ b.competencies.bind CompetencyTree.names

def StackTree.names (s : StackTree) : Multiset String := s.competencyBlocks.bind BlockTree.names

theorem StackTree.names_of_placements (s : StackTree) : s.placements.map Prod.snd = s.names := by
  have hcompetency (b : String) (c : CompetencyTree) :
      ((some b, c.name) ::ₘ c.placements).map Prod.snd = c.names := by
    rw [Multiset.map_cons, CompetencyTree.placements, Multiset.map_map]
    exact congrArg _ (Multiset.map_id' c.topics)
  have hblock (b : BlockTree) : ((none, b.name) ::ₘ b.placements).map Prod.snd = b.names := by
    rw [Multiset.map_cons, BlockTree.placements, Multiset.map_bind]
    exact congrArg _ (Multiset.bind_congr (fun c _ => hcompetency b.name c))
  rw [StackTree.placements, Multiset.map_bind]
  exact Multiset.bind_congr (fun b _ => hblock b)

end Trees

section Documents

/-- Where a node should be stored. -/
def Node.placement (n : Node) : Placement := (n.parent, n.id)

/-- The levels that a node lists. -/
def Node.listing (n : Node) : List Listing :=
  n.levels.map (fun l => (n.id, l.level, l.descriptorEn))

/-- The nodes without a parent. -/
def Document.blocks (doc : Document) : List Node := doc.nodes.filter (fun n => n.parent = none)

/-- The nodes under a competency. -/
def Document.topics (doc : Document) : List Node :=
  doc.nodes.filter (fun n => ∃ c ∈ doc.competencies, n.parent = some c.id)

/-- The importer finds a place for the node. -/
def Document.Placed (doc : Document) (n : Node) : Prop :=
  n.parent = none ∨ (∃ b ∈ doc.nodes, b.parent = none ∧ n.parent = some b.id) ∨
    ∃ c ∈ doc.competencies, n.parent = some c.id

instance (doc : Document) (n : Node) : Decidable (doc.Placed n) :=
  inferInstanceAs (Decidable (_ ∨ _ ∨ _))

/-- There is a place for every node when every parent is a block or under one. -/
theorem Document.rooted_iff {doc : Document} : doc.Rooted ↔ ∀ n ∈ doc.nodes, doc.Placed n := by
  constructor
  · intro h n hn
    cases hp : n.parent with
    | none => exact Or.inl hp
    | some p =>
        right
        obtain ⟨q, hq, rfl, hroot | ⟨r, hr, hqr, hrp⟩⟩ := h n hn p hp
        · exact Or.inl ⟨q, hq, hroot, hp⟩
        · exact Or.inr ⟨q, List.mem_filter.mpr ⟨hq, decide_eq_true ⟨r, hr, hrp, hqr⟩⟩, hp⟩
  · intro h n hn p hp
    rcases h n hn with hnone | ⟨b, hb, hroot, hnb⟩ | ⟨c, hc, hnc⟩
    · rw [hnone] at hp
      cases hp
    · rw [hp, Option.some.injEq] at hnb
      exact ⟨b, hb, hnb.symm, Or.inl hroot⟩
    · rw [hp, Option.some.injEq] at hnc
      obtain ⟨hc, hunder⟩ := List.mem_filter.mp hc
      obtain ⟨b, hb, hroot, hcb⟩ := of_decide_eq_true hunder
      exact ⟨c, hc, hnc.symm, Or.inr ⟨b, hb, hcb, hroot⟩⟩

/-- The children of different nodes, taken together, are the nodes whose parent
    is one of them. -/
theorem bind_children (nodes : Multiset Node) (ids : List String) (h : ids.Nodup) :
    (ids : Multiset String).bind (fun id => nodes.filter (fun n => n.parent = some id)) =
      nodes.filter (fun n => ∃ id ∈ ids, n.parent = some id) := by
  induction ids with
  | nil => simp
  | cons id ids ih =>
      rw [List.nodup_cons] at h
      rw [← Multiset.cons_coe, Multiset.cons_bind, ih h.2, Multiset.filter_add_filter]
      -- No node is a child of two of them.
      have hboth :
          nodes.filter (fun n => n.parent = some id ∧ ∃ i ∈ ids, n.parent = some i) = 0 := by
        rw [Multiset.filter_eq_nil]
        rintro n _ ⟨hn, i, hi, hni⟩
        rw [hn, Option.some.injEq] at hni
        exact h.1 (hni ▸ hi)
      rw [hboth, add_zero]
      refine Multiset.filter_congr (fun n _ => ?_)
      simp only [List.mem_cons, exists_eq_or_imp]

variable {doc : Document}

/-- The children of some nodes of a document, taken together. -/
theorem Document.bind_children_of (hids : doc.UniqueIds) {parents : List Node}
    (hsub : parents.Sublist doc.nodes) {children : List Node}
    (hchildren : children = doc.nodes.filter (fun n => ∃ q ∈ parents, n.parent = some q.id)) :
    (parents : Multiset Node).bind (fun q => ((doc.nodes.filter (fun n => n.parent = some q.id) :
      List Node) : Multiset Node)) = (children : Multiset Node) := by
  have hbind := bind_children (doc.nodes : Multiset Node) (parents.map Node.id)
    (hids.sublist (hsub.map Node.id))
  rw [← Multiset.map_coe, Multiset.bind_map] at hbind
  rw [hchildren]
  refine hbind.trans ?_
  rw [Multiset.filter_coe]
  refine congrArg _ (List.filter_congr (fun n _ => ?_))
  simp only [List.mem_map, exists_exists_and_eq_and]

theorem Document.blocks_sublist : doc.blocks.Sublist doc.nodes := List.filter_sublist

theorem Document.competencies_sublist : doc.competencies.Sublist doc.nodes :=
  List.filter_sublist

theorem Document.topics_eq_children :
    doc.topics = doc.nodes.filter (fun n => ∃ q ∈ doc.competencies, n.parent = some q.id) := rfl

theorem Document.competencies_eq_children :
    doc.competencies = doc.nodes.filter (fun n => ∃ q ∈ doc.blocks, n.parent = some q.id) := by
  refine List.filter_congr (fun n _ => ?_)
  simp only [Document.blocks, List.mem_filter, decide_eq_true_eq, and_assoc]

/-- The rows of the tree of a document, generation by generation. -/
theorem Document.tree_generations (name : String) (hids : doc.UniqueIds) :
    (doc.tree name).placements =
      (doc.blocks : Multiset Node).map Node.placement +
        ((doc.competencies : Multiset Node).map Node.placement +
          (doc.topics : Multiset Node).map Node.placement) := by
  have hcompetency (c : Node) : (doc.competencyTree c).placements =
      ((doc.nodes.filter (fun n => n.parent = some c.id) : List Node) : Multiset Node).map
        Node.placement := by
    change (((doc.nodes.filter (fun n => n.parent = some c.id)).map Node.id : List String) :
      Multiset String).map (fun topic => (some c.id, topic)) = _
    rw [Multiset.map_coe, Multiset.map_coe, List.map_map]
    refine congrArg _ (List.map_congr_left (fun n hn => ?_))
    have hparent := of_decide_eq_true (List.mem_filter.mp hn).2
    exact congrArg (fun p => (p, n.id)) hparent.symm
  have hblock (b : Node) : (doc.blockTree b).placements =
      ((doc.nodes.filter (fun n => n.parent = some b.id) : List Node) : Multiset Node).bind
        (fun c => c.placement ::ₘ (doc.competencyTree c).placements) := by
    unfold BlockTree.placements Document.blockTree
    rw [← Multiset.map_coe, Multiset.bind_map]
    refine Multiset.bind_congr (fun c hc => ?_)
    have hparent := of_decide_eq_true (List.mem_filter.mp (Multiset.mem_coe.mp hc)).2
    exact congrArg (fun p => (p, c.id) ::ₘ (doc.competencyTree c).placements) hparent.symm
  have htree : (doc.tree name).placements =
      (doc.blocks : Multiset Node).bind
        (fun b => b.placement ::ₘ (doc.blockTree b).placements) := by
    unfold StackTree.placements Document.tree
    rw [← Multiset.map_coe, Multiset.bind_map]
    refine Multiset.bind_congr (fun b hb => ?_)
    have hparent := of_decide_eq_true (List.mem_filter.mp (Multiset.mem_coe.mp hb)).2
    exact congrArg (fun p => (p, b.id) ::ₘ (doc.blockTree b).placements) hparent.symm
  rw [htree]
  simp only [hblock, hcompetency]
  rw [Multiset.bind_cons, ← Multiset.bind_assoc,
    Document.bind_children_of hids Document.blocks_sublist Document.competencies_eq_children,
    Multiset.bind_cons, ← Multiset.map_bind,
    Document.bind_children_of hids Document.competencies_sublist Document.topics_eq_children]

/-- The tree of a document has a row for every node that it finds a place for, under
    its parent, and no other row. -/
theorem Document.tree_placements (name : String) (hids : doc.UniqueIds) :
    (doc.tree name).placements =
      ((doc.nodes.filter doc.Placed : List Node) : Multiset Node).map Node.placement := by
  have hinj {m n : Node} (hm : m ∈ doc.nodes) (hn : n ∈ doc.nodes) (h : m.id = n.id) : m = n :=
    List.inj_on_of_nodup_map hids hm hn h
  rw [Document.tree_generations name hids, ← Multiset.map_add, ← Multiset.map_add]
  refine congrArg _ ?_
  -- No node is of two generations.
  have hlower : (doc.competencies : Multiset Node) + doc.topics =
      (doc.nodes : Multiset Node).filter (fun n =>
        (∃ b ∈ doc.nodes, b.parent = none ∧ n.parent = some b.id) ∨
          ∃ c ∈ doc.competencies, n.parent = some c.id) := by
    have hc : (doc.competencies : Multiset Node) = (doc.nodes : Multiset Node).filter
      (fun n => ∃ b ∈ doc.nodes, b.parent = none ∧ n.parent = some b.id) := rfl
    have ht : (doc.topics : Multiset Node) = (doc.nodes : Multiset Node).filter
      (fun n => ∃ c ∈ doc.competencies, n.parent = some c.id) := rfl
    rw [← add_zero (Multiset.filter _ _), hc, ht]
    refine Eq.trans (Multiset.filter_add_filter _ _ _) (congrArg _ ?_)
    rw [Multiset.filter_eq_nil]
    rintro n _ ⟨⟨b, hb, hroot, hnb⟩, c, hc, hnc⟩
    rw [hnb, Option.some.injEq] at hnc
    obtain ⟨hcmem, hunder⟩ := List.mem_filter.mp hc
    obtain ⟨p, _, _, hcp⟩ := of_decide_eq_true hunder
    rw [← hinj hb hcmem hnc, hroot] at hcp
    cases hcp
  have hb : (doc.blocks : Multiset Node) =
    (doc.nodes : Multiset Node).filter (fun n => n.parent = none) := rfl
  have hnone : (doc.nodes : Multiset Node).filter (fun n => n.parent = none ∧
      ((∃ b ∈ doc.nodes, b.parent = none ∧ n.parent = some b.id) ∨
        ∃ c ∈ doc.competencies, n.parent = some c.id)) = 0 := by
    rw [Multiset.filter_eq_nil]
    rintro n _ ⟨hn, ⟨b, _, _, hnb⟩ | ⟨c, _, hnc⟩⟩
    · rw [hn] at hnb
      cases hnb
    · rw [hn] at hnc
      cases hnc
  rw [hlower, hb, Multiset.filter_add_filter, hnone, add_zero]
  rfl

/-- The tree of a document has the levels of its competencies. -/
theorem Document.tree_listing (name : String) (hids : doc.UniqueIds) :
    (doc.tree name).listing = (doc.competencies.flatMap Node.listing : List Listing) := by
  have hcompetency (c : Node) : (doc.competencyTree c).listing = (c.listing : List Listing) := by
    unfold CompetencyTree.listing Document.competencyTree
    rw [Multiset.map_coe, List.map_map]
    rfl
  have htree : (doc.tree name).listing =
      (doc.competencies : Multiset Node).bind (fun c => (c.listing : Multiset Listing)) := by
    rw [← Document.bind_children_of hids Document.blocks_sublist
      Document.competencies_eq_children, Multiset.bind_assoc]
    unfold StackTree.listing Document.tree
    rw [← Multiset.map_coe, Multiset.bind_map]
    refine Multiset.bind_congr (fun b _ => ?_)
    unfold BlockTree.listing Document.blockTree
    rw [← Multiset.map_coe, Multiset.bind_map]
    exact Multiset.bind_congr (fun c _ => hcompetency c)
  rw [htree, Multiset.coe_bind]

/-- The tree of a document whose parents resolve has every node, once. -/
theorem Document.tree_names (name : String) (hids : doc.UniqueIds) (hrooted : doc.Rooted) :
    (doc.tree name).names = (doc.nodes.map Node.id : List String) := by
  have hall : doc.nodes.filter doc.Placed = doc.nodes := by
    refine List.filter_eq_self.mpr (fun n hn => ?_)
    exact decide_eq_true (Document.rooted_iff.mp hrooted n hn)
  rw [← StackTree.names_of_placements, Document.tree_placements name hids, hall, Multiset.map_map]
  rfl

end Documents

end TechScreen.Rubric
