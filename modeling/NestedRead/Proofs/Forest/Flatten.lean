import NestedRead.Proofs.Forest.Basic

/-!
# Flattening by nested loops

Flattening a forest is a nested loop as well: a step for a link picks a record under the relation,
or none where there is none. `flatten_selection` says that the rows of a record are the rows of the
environments that these loops reach, by induction on the plan. The nested object of a record is its
unfolding along the plan, by another.
-/

set_option autoImplicit false

namespace NestedRead

namespace Record

/-- Records as they are. A record without an id is not part of a forest that has a shape. -/
def view : View Record where
  fields _ r := r.fields
  id n r := (r.idAt? n.entity.uniqueColumn).getD (.integer 0)
  kids l r := r.kids l.edge.field

theorem view_id_of_idAt? {n : NodePlan} {r : Record} {id : EntityId}
    (h : r.idAt? n.entity.uniqueColumn = some id) : view.id n r = id := by
  simp [view, h]

def under (l : Link) (env : Env Record) : List Record :=
  ((env l.parent.tableAlias).map (·.kids l.edge.field)).getD []

/-- Each pick in turn, or none where there is nothing to pick. -/
def pick (l : Link) (env : Env Record) : List (Env Record) :=
  (orNone (under l env)).map (env.set l.child.tableAlias)

theorem mem_under {l : Link} {env : Env Record} {kid : Record} :
    kid ∈ under l env ↔ ∃ r, env l.parent.tableAlias = some r ∧ kid ∈ r.kids l.edge.field := by
  unfold under
  cases env l.parent.tableAlias <;> simp

/-- Picking offers exactly the records under the relation. -/
theorem pick_offers {l : Link} (h : l.parent.tableAlias ∉ l.aliases) :
    l.Offers view.kids pick where
  frame env env' henv a ha := by
    obtain ⟨k, -, rfl⟩ := List.mem_map.mp henv
    exact Env.set_of_ne env k fun heq => ha (heq ▸ l.child_mem_aliases)
  sound env env' henv := by
    obtain ⟨k, hk, rfl⟩ := List.mem_map.mp henv
    have hne : l.parent.tableAlias ≠ l.child.tableAlias :=
      fun heq => h (heq ▸ l.child_mem_aliases)
    unfold Link.Fits
    rw [Env.set_self, Env.set_of_ne env k hne]
    rcases mem_orNone.mp hk with ⟨-, rfl⟩ | ⟨kid, hkid, rfl⟩
    · exact Or.inl rfl
    · obtain ⟨r, hr, hkid⟩ := mem_under.mp hkid
      exact Or.inr ⟨r, hr, kid, hkid, rfl⟩
  complete env r hr kid hkid :=
    ⟨_, List.mem_map_of_mem (mem_orNone.mpr (Or.inr ⟨kid, mem_under.mpr ⟨r, hr, hkid⟩, rfl⟩)),
      Env.set_self ..⟩
  nonempty env := by
    unfold pick
    rw [Ne, List.map_eq_nil_iff]
    exact orNone_ne_nil _

end Record

open Record (view pick)

namespace Plan

variable {catalog : Catalog} {separator : String} {plan : Plan}

/-! ## Nested objects are unfoldings -/

theorem Valid.multiplicity (h : plan.Valid catalog separator) {l : Link} (hl : l ∈ plan.links) :
    catalog.multiplicity l.parent.entity.name l.edge.field = l.edge.relation.multiplicity := by
  rw [Catalog.multiplicity, h.get?_name (parent_mem_nodes hl), Option.bind_some,
    (h.links l hl).relation]
  rfl

mutual

theorem toJson_selection (h : plan.Valid catalog separator) : ∀ {p : Plan},
    (∀ l ∈ p.links, l ∈ plan.links) →
      ∀ r : Record, p.selection.toJson catalog r = p.unfold view r
  | .mk n branches, hlinks, r => by
    rw [selection, SelectionNode.toJson, unfold, relationsToJson_selectionsOf h hlinks]
    rfl

theorem relationsToJson_selectionsOf (h : plan.Valid catalog separator) {n : NodePlan} :
    ∀ {branches : List Branch}, (∀ l ∈ linksOf n branches, l ∈ plan.links) →
      ∀ r : Record, SelectionNode.relationsToJson catalog n.entity.name (selectionsOf branches) r
        = unfoldOf view n r branches
  | [], _, _ => rfl
  | .mk e below :: rest, hlinks, r => by
    rw [linksOf, List.forall_mem_cons, List.forall_mem_append] at hlinks
    obtain ⟨hlink, hbelow, hrest⟩ := hlinks
    have hkids : (r.kids e.field).map (below.selection.toJson catalog)
        = (r.kids e.field).map (below.unfold view) :=
      List.map_congr_left fun k _ => toJson_selection h hbelow k
    rw [selectionsOf, SelectionNode.relationsToJson, relationsToJson_selectionsOf h hrest,
      hkids, show catalog.multiplicity n.entity.name e.field = _ from h.multiplicity hlink]
    rfl

end

/-! ## Rows of records are rows of environments -/

/-- The columns below a node, link by link. -/
def rowBelow (separator : String) (links : List Link) (env : Env Record) : Json.Members :=
  links.flatMap fun l => l.child.cells separator (view.shown l.child (env l.child.tableAlias))

theorem row_eq (separator : String) (plan : Plan) (env : Env Record) :
    plan.row separator view env =
      plan.node.cells separator (view.shown plan.node (env plan.node.tableAlias))
        ++ rowBelow separator plan.links env := by
  rw [row, nodes, List.flatMap_cons, List.flatMap_map]
  rfl

/-- The columns below a node depend on the aliases of its links only. -/
theorem rowBelow_congr {links : List Link} {env env' : Env Record}
    (h : ∀ l ∈ links, env l.child.tableAlias = env' l.child.tableAlias) :
    rowBelow separator links env = rowBelow separator links env' :=
  List.flatMap_congr fun l hl => by rw [h l hl]

theorem Valid.columns (h : plan.Valid catalog separator) (hclear : plan.Clear separator) {p : Plan}
    (hp : p.node ∈ plan.nodes) (r : Option Record) :
    SelectionNode.columns catalog (plan.layout separator) p.selection r
      = p.node.cells separator (view.shown p.node r) := by
  obtain ⟨n, branches⟩ := p
  rw [node] at hp
  unfold SelectionNode.columns
  rw [selection, SelectionNode.entity, SelectionNode.path, h.get?_name hp, hclear.byPath? hp]
  cases r <;> rfl

mutual

/-- The rows of a record are the rows of the environments that picking reaches. -/
theorem flatten_selection (h : plan.Valid catalog separator) (hclear : plan.Clear separator)
    (hoffers : ∀ l ∈ plan.links, l.Offers view.kids pick) : ∀ {p : Plan}, p.node ∈ plan.nodes →
      (∀ l ∈ p.links, l ∈ plan.links) → p.aliases.Nodup → ∀ env : Env Record,
        p.selection.flatten catalog (plan.layout separator) (env p.node.tableAlias)
          = (extend pick p.links env).map (p.row separator view)
  | .mk n branches, hn, hlinks, hnodup, env => by
    rw [aliases, node, links, List.nodup_cons] at hnodup
    have hcolumns := h.columns hclear hn (env n.tableAlias)
    rw [selection] at hcolumns
    rw [selection, SelectionNode.flatten, node, hcolumns,
      flattenRelations_selectionsOf h hclear hoffers hlinks (List.nodup_cons.mpr hnodup) env,
      List.map_map]
    refine List.map_congr_left fun env' henv => ?_
    have hframe := extend_frame (fun l hl => hoffers l (hlinks l hl)) henv n.tableAlias hnodup.1
    rw [row_eq, node, hframe]
    rfl

theorem flattenRelations_selectionsOf (h : plan.Valid catalog separator)
    (hclear : plan.Clear separator) (hoffers : ∀ l ∈ plan.links, l.Offers view.kids pick)
    {n : NodePlan} : ∀ {branches : List Branch}, (∀ l ∈ linksOf n branches, l ∈ plan.links) →
      (n.tableAlias :: (linksOf n branches).flatMap Link.aliases).Nodup → ∀ env : Env Record,
        SelectionNode.flattenRelations catalog (plan.layout separator) (selectionsOf branches)
            (env n.tableAlias)
          = (extend pick (linksOf n branches) env).map
            (rowBelow separator (linksOf n branches))
  | [], _, _, _ => rfl
  | .mk e below :: rest, hlinks, hnodup, env => by
    rw [linksOf, List.forall_mem_cons, List.forall_mem_append] at hlinks
    obtain ⟨hlink, hbelow, hrest⟩ := hlinks
    rw [linksOf, List.flatMap_cons, List.flatMap_append] at hnodup
    obtain ⟨hn, hnodup⟩ := List.nodup_cons.mp hnodup
    obtain ⟨-, hnodup, hlinkDisjoint⟩ := List.nodup_append.mp hnodup
    obtain ⟨hbelowNodup, hrestNodup, hdisjoint⟩ := List.nodup_append.mp hnodup
    rw [List.mem_append, List.mem_append, not_or, not_or] at hn
    have hchild : below.node.tableAlias ∉ below.links.flatMap Link.aliases ++
        (linksOf n rest).flatMap Link.aliases :=
      fun hmem => hlinkDisjoint _ List.mem_cons_self _ hmem rfl
    rw [List.mem_append, not_or] at hchild
    have hne : n.tableAlias ≠ below.node.tableAlias := fun heq => hn.1 (heq ▸ List.mem_cons_self)
    -- One pick, the loops below it, and the loops of the further relations.
    have hpick : ∀ k : Option Record,
        (below.selection.flatten catalog (plan.layout separator) k).flatMap (fun row =>
          (SelectionNode.flattenRelations catalog (plan.layout separator) (selectionsOf rest)
            (env n.tableAlias)).map (row ++ ·)) =
        (extend pick below.links (env.set below.node.tableAlias k)).flatMap fun mid =>
          (extend pick (linksOf n rest) mid).map
            (rowBelow separator (linksOf n (.mk e below :: rest))) := by
      intro k
      have hflatten := flatten_selection h hclear hoffers (child_mem_nodes hlink) hbelow
        (List.nodup_cons.mpr ⟨hchild.1, hbelowNodup⟩) (env.set below.node.tableAlias k)
      rw [Env.set_self] at hflatten
      rw [hflatten, List.flatMap_map]
      refine List.flatMap_congr fun mid hmid => ?_
      have hparent : mid n.tableAlias = env n.tableAlias := by
        rw [extend_frame (fun l hl => hoffers l (hbelow l hl)) hmid _ hn.2.1, Env.set_of_ne _ _ hne]
      have hrelations := flattenRelations_selectionsOf h hclear hoffers hrest
        (List.nodup_cons.mpr ⟨hn.2.2, hrestNodup⟩) mid
      rw [hparent] at hrelations
      rw [hrelations, List.map_map]
      refine List.map_congr_left fun env' henv => ?_
      have hframe := extend_frame (fun l hl => hoffers l (hrest l hl)) henv
      have hbelowRow : rowBelow separator below.links mid = rowBelow separator below.links env' :=
        rowBelow_congr fun l hl => (hframe _ fun hmem => hdisjoint _
          (List.mem_flatMap.mpr ⟨l, hl, l.child_mem_aliases⟩) _ hmem rfl).symm
      rw [Function.comp_apply, row_eq, hbelowRow, ← hframe _ hchild.2]
      simp [rowBelow, linksOf]
    calc SelectionNode.flattenRelations catalog (plan.layout separator)
          (selectionsOf (.mk e below :: rest)) (env n.tableAlias)
        = (orNone (Record.under ⟨n, e, below.node⟩ env)).flatMap fun k =>
            (below.selection.flatten catalog (plan.layout separator) k).flatMap fun row =>
              (SelectionNode.flattenRelations catalog (plan.layout separator) (selectionsOf rest)
                (env n.tableAlias)).map (row ++ ·) := by
          rw [selectionsOf, SelectionNode.flattenRelations, List.flatMap_assoc]
          rfl
      _ = (orNone (Record.under ⟨n, e, below.node⟩ env)).flatMap fun k =>
            (extend pick below.links (env.set below.node.tableAlias k)).flatMap fun mid =>
              (extend pick (linksOf n rest) mid).map
                (rowBelow separator (linksOf n (.mk e below :: rest))) :=
          List.flatMap_congr fun k _ => hpick k
      _ = (extend pick (linksOf n (.mk e below :: rest)) env).map
            (rowBelow separator (linksOf n (.mk e below :: rest))) := by
          rw [linksOf, extend, pick, List.flatMap_map, List.map_flatMap]
          refine List.flatMap_congr fun k _ => ?_
          rw [extend_append, List.map_flatMap]

end

end Plan
end NestedRead
