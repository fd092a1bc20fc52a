import NestedRead.Proofs.Query.Plan

/-!
# The nodes of a plan in their order

A plan lists its nodes and links in the order in which its selection lists nodes and edges, so what
is known of a selection by its list of nodes carries over. Going down the list, the parent of a link
is always there before the link: proofs about a whole plan can be inductions on the list of its
links that carry the nodes seen so far (`Plan.ParentsFirst`).
-/

set_option autoImplicit false

namespace NestedRead

/-! ## Plans and selections node by node -/

namespace Plan

/-- What a node of a plan has from its selection. -/
def outline (n : NodePlan) : String × FieldPath × List String := (n.entity.name, n.path, n.scalars)

mutual

/-- The nodes of a plan are those of its selection, in the same order. -/
theorem outline_nodes : ∀ plan : Plan, plan.nodes.map outline =
    plan.selection.nodes.map fun s => (s.entity, s.path, s.scalars)
  | .mk n branches => by
    rw [nodes, selection, SelectionNode.nodes, List.map_cons, List.map_cons, links,
      ← outline_linksOf n branches, List.map_map]
    rfl

theorem outline_linksOf (n : NodePlan) : ∀ branches : List Branch,
    (linksOf n branches).map (fun l => outline l.child) =
      (SelectionNode.nodesOf (selectionsOf branches)).map fun s => (s.entity, s.path, s.scalars)
  | [] => rfl
  | .mk e below :: rest => by
    rw [selectionsOf, SelectionNode.nodesOf, List.map_append, ← outline_nodes below,
      ← outline_linksOf n rest, linksOf, nodes]
    simp

end

mutual

/-- The edges of a selection join the paths at the ends of the links. -/
theorem edges_selection : ∀ plan : Plan, plan.selection.edges =
    plan.links.map fun l => (l.parent.path, l.child.path)
  | .mk n branches => by
    rw [selection, SelectionNode.edges, links, edgesFrom_selectionsOf n branches]

theorem edgesFrom_selectionsOf (n : NodePlan) : ∀ branches : List Branch,
    SelectionNode.edgesFrom n.path (selectionsOf branches) =
      (linksOf n branches).map fun l => (l.parent.path, l.child.path)
  | [] => rfl
  | .mk e below :: rest => by
    rw [selectionsOf, SelectionNode.edgesFrom, edges_selection below,
      edgesFrom_selectionsOf n rest, linksOf]
    cases below
    simp [selection, SelectionNode.path, Plan.node]

end

/-- A node of a plan is made for a node of a selection. -/
def MadeFor (n : NodePlan) (s : SelectionNode) : Prop := outline n = (s.entity, s.path, s.scalars)

theorem MadeFor.entity {n : NodePlan} {s : SelectionNode} (h : MadeFor n s) :
    s.entity = n.entity.name :=
  (congrArg (·.1) h).symm

theorem MadeFor.path {n : NodePlan} {s : SelectionNode} (h : MadeFor n s) : s.path = n.path :=
  (congrArg (·.2.1) h).symm

theorem MadeFor.scalars {n : NodePlan} {s : SelectionNode} (h : MadeFor n s) :
    s.scalars = n.scalars :=
  (congrArg (·.2.2) h).symm

theorem madeFor_selection : ∀ plan : Plan, MadeFor plan.node plan.selection
  | .mk _ _ => rfl

theorem selection_mem_nodes : ∀ plan : Plan, plan.selection ∈ plan.selection.nodes
  | .mk _ _ => List.mem_cons_self

/-- A link is made for a relation that leads to one of these nodes. -/
structure Follows (l : Link) (r : RelationSelection) (nodes : List SelectionNode) : Prop where
  field : r.field = l.edge.field
  args : r.args = l.edge.args
  node : r.node ∈ nodes
  child : MadeFor l.child r.node

theorem Follows.mono {l : Link} {r : RelationSelection} {nodes more : List SelectionNode}
    (h : Follows l r nodes) (hsub : nodes ⊆ more) : Follows l r more :=
  { h with node := hsub h.node }

mutual

theorem exists_relation : ∀ {plan : Plan}, ∀ l ∈ plan.links, ∃ s ∈ plan.selection.nodes,
    MadeFor l.parent s ∧ ∃ r ∈ s.relations, Follows l r plan.selection.nodes
  | .mk n branches, l, hl => by
    rw [selection, SelectionNode.nodes]
    rcases exists_relation_linksOf l hl with ⟨hparent, r, hr, hfollows⟩ |
      ⟨s, hs, hparent, r, hr, hfollows⟩
    · exact ⟨_, List.mem_cons_self, hparent ▸ rfl, r, hr,
        hfollows.mono (List.subset_cons_self ..)⟩
    · exact ⟨s, List.mem_cons_of_mem _ hs, hparent, r, hr,
        hfollows.mono (List.subset_cons_self ..)⟩

theorem exists_relation_linksOf {n : NodePlan} : ∀ {branches : List Branch},
    ∀ l ∈ linksOf n branches,
      (l.parent = n ∧ ∃ r ∈ selectionsOf branches,
        Follows l r (SelectionNode.nodesOf (selectionsOf branches))) ∨
      ∃ s ∈ SelectionNode.nodesOf (selectionsOf branches), MadeFor l.parent s ∧
        ∃ r ∈ s.relations, Follows l r (SelectionNode.nodesOf (selectionsOf branches))
  | [], l, hl => absurd hl (by simp [linksOf])
  | .mk e below :: rest, l, hl => by
    rw [linksOf, List.mem_cons, List.mem_append] at hl
    rw [selectionsOf, SelectionNode.nodesOf]
    rcases hl with rfl | hl | hl
    · exact Or.inl ⟨rfl, _, List.mem_cons_self, rfl, rfl,
        List.mem_append_left _ (selection_mem_nodes below), madeFor_selection below⟩
    · obtain ⟨s, hs, hparent, r, hr, hfollows⟩ := exists_relation l hl
      exact Or.inr ⟨s, List.mem_append_left _ hs, hparent, r, hr,
        hfollows.mono (List.subset_append_left ..)⟩
    · rcases exists_relation_linksOf l hl with ⟨hparent, r, hr, hfollows⟩ |
        ⟨s, hs, hparent, r, hr, hfollows⟩
      · exact Or.inl ⟨hparent, r, List.mem_cons_of_mem _ hr,
          hfollows.mono (List.subset_append_right ..)⟩
      · exact Or.inr ⟨s, List.mem_append_right _ hs, hparent, r, hr,
          hfollows.mono (List.subset_append_right ..)⟩

end

/-! ## Parents stand before their children -/

/-- The parent of each link is known or the child of an earlier one. -/
def ParentsFirst : List NodePlan → List Link → Prop
  | _, [] => True
  | known, l :: rest => l.parent ∈ known ∧ ParentsFirst (l.child :: known) rest

theorem ParentsFirst.mono : ∀ {links : List Link} {known more : List NodePlan},
    ParentsFirst known links → known ⊆ more → ParentsFirst more links
  | [], _, _, _, _ => trivial
  | _ :: _, _, _, h, hsub => ⟨hsub h.1, h.2.mono (List.cons_subset_cons _ hsub)⟩

theorem ParentsFirst.append : ∀ {ls ms : List Link} {known : List NodePlan},
    ParentsFirst known ls → ParentsFirst known ms → ParentsFirst known (ls ++ ms)
  | [], _, _, _, hm => hm
  | _ :: _, _, _, h, hm => ⟨h.1, h.2.append (hm.mono (List.subset_cons_self _ _))⟩

mutual

theorem parentsFirst_links : ∀ {plan : Plan} {known : List NodePlan}, plan.node ∈ known →
    ParentsFirst known plan.links
  | .mk _ _, _, h => parentsFirst_linksOf h

theorem parentsFirst_linksOf {n : NodePlan} : ∀ {branches : List Branch} {known : List NodePlan},
    n ∈ known → ParentsFirst known (linksOf n branches)
  | [], _, _ => trivial
  | .mk _ _ :: _, _, h =>
    ⟨h, (parentsFirst_links List.mem_cons_self).append
      (parentsFirst_linksOf (List.mem_cons_of_mem _ h))⟩

end

theorem ParentsFirst.parent_mem : ∀ {links : List Link} {known : List NodePlan},
    ParentsFirst known links → ∀ l ∈ links, l.parent ∈ known ++ links.map (·.child)
  | [], _, _, l, hl => absurd hl (by simp)
  | m :: rest, known, h, l, hl => by
    rcases List.mem_cons.mp hl with rfl | hl
    · exact List.mem_append_left _ h.1
    · have hmem := h.2.parent_mem l hl
      simp only [List.cons_append, List.mem_cons, List.mem_append, List.map_cons] at hmem ⊢
      tauto

theorem child_mem_nodes {plan : Plan} {l : Link} (h : l ∈ plan.links) : l.child ∈ plan.nodes :=
  List.mem_cons_of_mem _ (List.mem_map_of_mem h)

theorem parent_mem_nodes {plan : Plan} {l : Link} (h : l ∈ plan.links) : l.parent ∈ plan.nodes :=
  (parentsFirst_links (List.mem_singleton.mpr rfl)).parent_mem l h

end Plan
end NestedRead
