import NestedRead.Proofs.Catalog.Accepted
import NestedRead.Selection.Tree

/-!
# Trees that are well formed

What building a selection tree establishes at every node, whatever was selected: the entity is
known, a scalar is asked for once and is no relation, the relations are distinct relation fields of
the entity, and each leads to a node of its target whose path is one field longer.

`SelectionNode.build` is taken apart in two steps. Merging is a fold over the selections and keeps
`RequestedFields.Sound`; building a node is then one step for each merged relation, so the whole
tree is an induction on the levels. Paths are read off the structure afterwards: a node below a
relation has the path of that relation as a beginning, and siblings differ in the next field.
-/

set_option autoImplicit false

namespace NestedRead

/-! ## Merged selections -/

namespace RequestedFields

/-- Scalars and relations of an entity, each once. -/
structure Sound (entity : Entity) (fields : RequestedFields) : Prop where
  scalarsNodup : fields.scalars.Nodup
  scalars : ∀ s ∈ fields.scalars, entity.relation? s = none ∧ isIntrospection s = false
  relationsNodup : (fields.relations.map (·.field)).Nodup
  relations : ∀ r ∈ fields.relations, entity.relation? r.field = some r.relation

/-- Merging an occurrence changes neither the field nor its relation. -/
theorem key_merge {requested merged : RequestedRelation} {s : FieldSelection}
    (h : requested.merge s = .ok merged) :
    merged.field = requested.field ∧ merged.relation = requested.relation := by
  unfold RequestedRelation.merge at h
  dsimp only at h
  split at h
  · cases h; exact ⟨rfl, rfl⟩
  · split at h
    · cases h; exact ⟨rfl, rfl⟩
    · cases h

/-- An occurrence of a relation that is there already adds no field; a new one comes last. -/
theorem keys_addRelation {relation : Relation} {s : FieldSelection} :
    ∀ {rs rs' : List RequestedRelation}, addRelation relation s rs = .ok rs' →
      rs'.map (fun r => (r.field, r.relation)) =
        rs.map (fun r => (r.field, r.relation)) ++
          if s.name ∈ rs.map (·.field) then [] else [(s.name, relation)]
  | [], rs', h => by cases h; simp
  | r :: rest, rs', h => by
    rw [addRelation] at h
    split at h
    · rename_i hname
      obtain ⟨merged, hmerge, h⟩ := Outcome.bind_eq_ok_iff.mp h
      cases h
      obtain ⟨hfield, hrel⟩ := key_merge hmerge
      simp [hfield, hrel, hname]
    · rename_i hname
      obtain ⟨more, hmore, h⟩ := Outcome.bind_eq_ok_iff.mp h
      cases h
      have hne : ¬ s.name = r.field := fun h => hname h.symm
      rw [List.map_cons, keys_addRelation hmore]
      simp [hne]

theorem Sound.add {entity : Entity} {fields fields' : RequestedFields} {s : FieldSelection}
    (hs : Sound entity fields) (h : add entity fields s = .ok fields') : Sound entity fields' := by
  unfold RequestedFields.add at h
  split at h
  · cases h; exact hs
  rename_i hintro
  have hintro : isIntrospection s.name = false := by simpa using hintro
  split at h
  · rename_i relation hrel
    obtain ⟨rs, hrs, h⟩ := Outcome.bind_eq_ok_iff.mp h
    cases h
    -- A relation: only what is requested of relations changes, and its keys are known.
    have hkeys := keys_addRelation hrs
    refine ⟨hs.scalarsNodup, hs.scalars, ?_, ?_⟩
    · have hfields := congrArg (List.map Prod.fst) hkeys
      simp only [List.map_map, List.map_append, Function.comp_def] at hfields
      show (rs.map fun r => r.field).Nodup
      rw [hfields]
      split
      · simpa using hs.relationsNodup
      · rename_i hnew
        refine List.nodup_append.mpr ⟨hs.relationsNodup, by simp, ?_⟩
        rintro a ha b hb rfl
        rw [List.map_singleton, List.mem_singleton] at hb
        subst hb
        exact hnew ha
    · intro r hr
      have hmem : (r.field, r.relation) ∈ rs.map (fun r => (r.field, r.relation)) :=
        List.mem_map_of_mem (f := fun r : RequestedRelation => (r.field, r.relation)) hr
      rw [hkeys, List.mem_append] at hmem
      rcases hmem with hmem | hmem
      · obtain ⟨r', hr', heq⟩ := List.mem_map.mp hmem
        simp only [Prod.mk.injEq] at heq
        rw [← heq.1, ← heq.2]
        exact hs.relations r' hr'
      · split at hmem
        · simp at hmem
        · simp only [List.mem_singleton, Prod.mk.injEq] at hmem
          rw [hmem.1, hmem.2]
          exact hrel
  · rename_i hrel
    split at h
    · cases h; exact hs
    · rename_i hnew
      -- A new scalar: the entity has no relation of this name.
      cases h
      have hnew : s.name ∉ fields.scalars := by simpa using hnew
      refine ⟨?_, ?_, hs.relationsNodup, hs.relations⟩
      · refine List.nodup_append.mpr ⟨hs.scalarsNodup, by simp, ?_⟩
        rintro a ha b hb rfl
        rw [List.mem_singleton] at hb
        exact hnew (hb ▸ ha)
      · intro x hx
        rcases List.mem_append.mp hx with hx | hx
        · exact hs.scalars x hx
        · rw [List.mem_singleton] at hx
          subst hx
          exact ⟨hrel, hintro⟩

theorem Sound.ofSelections {entity : Entity} : ∀ {selections : List FieldSelection}
    {fields fields' : RequestedFields}, Sound entity fields →
      ofSelections entity fields selections = .ok fields' → Sound entity fields'
  | [], _, _, hs, h => by cases h; exact hs
  | s :: rest, fields, fields', hs, h => by
    rw [RequestedFields.ofSelections] at h
    obtain ⟨next, hnext, h⟩ := Outcome.bind_eq_ok_iff.mp h
    exact Sound.ofSelections (hs.add hnext) h

theorem sound_empty (entity : Entity) : Sound entity {} :=
  ⟨List.nodup_nil, by simp, List.nodup_nil, by simp⟩

end RequestedFields

/-! ## Well-formed nodes -/

namespace SelectionNode

mutual

/-- Every node below has a known entity, asks for scalars and relations of it, each once, and has
the path of its relation. -/
def WellFormed (catalog : Catalog) : SelectionNode → Prop
  | .mk name path scalars relations =>
    ∃ entity, catalog.get? name = some entity ∧ scalars.Nodup ∧
      (∀ s ∈ scalars, entity.relation? s = none ∧ RequestedFields.isIntrospection s = false) ∧
      (relations.map RelationSelection.field).Nodup ∧
      RelationsWellFormed catalog entity path relations

/-- The relations of an entity that are selected at a path lead to well-formed nodes of their
targets. -/
def RelationsWellFormed (catalog : Catalog) (entity : Entity) (path : FieldPath) :
    List RelationSelection → Prop
  | [] => True
  | .mk field _ node :: rest =>
    (∃ relation, entity.relation? field = some relation ∧ node.entity = relation.target) ∧
      node.path = path.child field ∧ WellFormed catalog node ∧
      RelationsWellFormed catalog entity path rest

end

/-- Relations that were built one by one from sound requested fields are well formed. -/
theorem relationsWellFormed_of_forall₂ {catalog : Catalog} {entity : Entity} {path : FieldPath}
    {requested : List RequestedRelation} {relations : List RelationSelection}
    (hreq : ∀ r ∈ requested, entity.relation? r.field = some r.relation)
    (h : List.Forall₂ (fun r s => ∃ args node, s = RelationSelection.mk r.field args node ∧
      node.WellFormed catalog ∧ node.entity = r.relation.target ∧
      node.path = path.child r.field) requested relations) :
    RelationsWellFormed catalog entity path relations ∧
      relations.map RelationSelection.field = requested.map (·.field) := by
  induction h with
  | nil => exact ⟨trivial, rfl⟩
  | cons hhead _ ih =>
    obtain ⟨args, node, rfl, hnode, hentity, hpath⟩ := hhead
    obtain ⟨hrest, hfields⟩ := ih fun r hr => hreq r (List.mem_cons_of_mem _ hr)
    refine ⟨⟨⟨_, hreq _ List.mem_cons_self, hentity⟩, hpath, hnode, hrest⟩, ?_⟩
    rw [List.map_cons, List.map_cons, hfields]
    rfl

theorem build_wellFormed {catalog : Catalog} : ∀ {levels : Nat} {name : String}
    {path : FieldPath} {selections : List FieldSelection} {node : SelectionNode},
      (catalog.get? name).isSome = true →
      (build catalog levels name path selections).outcome = .ok node →
      node.WellFormed catalog ∧ node.entity = name ∧ node.path = path
  | 0, name, path, selections, node, hknown, h => by
    cases h
    obtain ⟨entity, hentity⟩ := Option.isSome_iff_exists.mp hknown
    exact ⟨⟨entity, hentity, List.nodup_nil, by simp, List.nodup_nil, trivial⟩, rfl, rfl⟩
  | levels + 1, name, path, selections, node, hknown, h => by
    obtain ⟨entity, hentity⟩ := Option.isSome_iff_exists.mp hknown
    rw [build, hentity] at h
    dsimp only at h
    obtain ⟨requested, hrequested, h⟩ := Traced.outcome_bind_eq_ok_iff.mp h
    obtain ⟨relations, hrelations, h⟩ := Traced.outcome_bind_eq_ok_iff.mp h
    cases h
    have hsound := (RequestedFields.sound_empty entity).ofSelections hrequested
    -- The induction is on the levels: below each requested relation one fewer is left.
    have hsteps := (Traced.outcome_each_eq_ok_iff.mp hrelations).imp
      (S := fun r s => ∃ args node, s = RelationSelection.mk r.field args node ∧
        node.WellFormed catalog ∧ node.entity = r.relation.target ∧
        node.path = path.child r.field) ?_
    · obtain ⟨hrels, hfields⟩ := relationsWellFormed_of_forall₂ hsound.relations hsteps
      refine ⟨⟨entity, hentity, hsound.scalarsNodup, hsound.scalars, ?_, hrels⟩, rfl, rfl⟩
      rw [hfields]
      exact hsound.relationsNodup
    · intro r s hs
      split at hs
      · cases hs
      · rename_i htarget
        obtain ⟨child, hchild, hs⟩ := Traced.outcome_bind_eq_ok_iff.mp hs
        obtain ⟨args, hargs, hs⟩ := Traced.outcome_bind_eq_ok_iff.mp hs
        cases hs
        have hknown : (catalog.get? r.relation.target).isSome = true := by
          simpa [Option.isSome_iff_ne_none] using htarget
        exact ⟨args, child, rfl, build_wellFormed hknown hchild⟩

end SelectionNode

/-- A tree that was built is well formed from the root on. -/
theorem SelectionTree.build_wellFormed {catalog : Catalog} {entity : String}
    {selection : FieldSelection} {tree : SelectionTree}
    (h : (build catalog entity selection).outcome = .ok tree) :
    tree.root.WellFormed catalog ∧ tree.root.entity = entity ∧ tree.root.path = .root := by
  unfold build at h
  split at h
  · cases h
  · rename_i hknown
    obtain ⟨root, hroot, h⟩ := Traced.outcome_bind_eq_ok_iff.mp h
    obtain ⟨args, hargs, h⟩ := Traced.outcome_bind_eq_ok_iff.mp h
    cases h
    exact SelectionNode.build_wellFormed
      (by simpa [Option.isSome_iff_ne_none] using hknown) hroot

/-! ## A tree of the library -/

namespace Sample

/-- Some authors with their books, and each book with its sequel. -/
def selection : FieldSelection where
  name := "authors"
  args := [("where", .object [("name", .object [("ne", .string "Anon")])])]
  selections := [.leaf "name",
    ⟨"books", [("joinType", .string "left"), ("on", .object [("title", .object [("is", .null)])])],
      [.leaf "title", ⟨"sequel", [("joinType", .string "LEFT")], [.leaf "title"]⟩]⟩]

/-- The books that a relation is restricted to. -/
def bookFilter : FilterExpr := ⟨[⟨"title", [("is", .null)]⟩], [], []⟩

/-- The authors that are asked for. -/
def authorFilter : FilterExpr := ⟨[⟨"name", [("ne", .string "Anon")]⟩], [], []⟩

def tree : SelectionTree where
  root := .mk "Author" .root ["name"]
    [.mk "books" { joinFilter := some bookFilter, joinType := some "left" }
      (.mk "Book" ⟨["books"]⟩ ["title"]
        [.mk "sequel" { joinType := some "LEFT" } (.mk "Book" ⟨["books", "sequel"]⟩ ["title"] [])])]
  args := { filter := some authorFilter }

theorem build_selection :
    (SelectionTree.build catalog "Author" selection).outcome = .ok tree := rfl

end Sample

/-! ## The nodes of a tree and their paths -/

namespace SelectionNode

mutual

/-- A node and the nodes below it, depth first. -/
def nodes : SelectionNode → List SelectionNode
  | .mk name path scalars relations => .mk name path scalars relations :: nodesOf relations

/-- The nodes that relations lead to, with the nodes below them. -/
def nodesOf : List RelationSelection → List SelectionNode
  | [] => []
  | .mk _ _ node :: rest => nodes node ++ nodesOf rest

end

end SelectionNode

/-- A selected relation and the node that it is selected at. -/
structure Descent where
  parent : SelectionNode
  relation : RelationSelection

namespace SelectionNode

mutual

/-- The relations below a node, depth first. -/
def descents : SelectionNode → List Descent
  | .mk name path scalars relations => descentsFrom (.mk name path scalars relations) relations

def descentsFrom (parent : SelectionNode) : List RelationSelection → List Descent
  | [] => []
  | .mk field args node :: rest =>
    ⟨parent, .mk field args node⟩ :: (descents node ++ descentsFrom parent rest)

end

mutual

/-- The nodes of a tree are its root and those that its relations lead to. -/
theorem nodes_eq : ∀ node : SelectionNode,
    node.nodes = node :: node.descents.map (·.relation.node)
  | .mk name path scalars relations => by
    rw [nodes, descents, nodesOf_eq (.mk name path scalars relations) relations]

theorem nodesOf_eq (parent : SelectionNode) : ∀ relations : List RelationSelection,
    nodesOf relations = (descentsFrom parent relations).map (·.relation.node)
  | [] => rfl
  | .mk field args node :: rest => by
    rw [nodesOf, nodes_eq node, nodesOf_eq parent rest, descentsFrom, List.map_cons,
      List.map_append]
    rfl

end

/-- Each of the relations is one of the entity and leads to its target, one field further down. -/
theorem RelationsWellFormed.of_mem {catalog : Catalog} {entity : Entity} {path : FieldPath} :
    ∀ {relations : List RelationSelection}, RelationsWellFormed catalog entity path relations →
      ∀ r ∈ relations, ∃ relation, entity.relation? r.field = some relation ∧
        r.node.entity = relation.target ∧ r.node.path = path.child r.field
  | .mk field args node :: rest, h, r, hr => by
    obtain ⟨⟨relation, hrelation, htarget⟩, hpath, -, hrest⟩ := h
    rcases List.mem_cons.mp hr with rfl | hr
    · exact ⟨relation, hrelation, htarget, hpath⟩
    · exact RelationsWellFormed.of_mem hrest r hr

mutual

theorem wellFormed_of_mem_nodes {catalog : Catalog} : ∀ {node : SelectionNode},
    node.WellFormed catalog → ∀ n ∈ node.nodes, n.WellFormed catalog
  | .mk name path scalars relations, h, n, hn => by
    rw [nodes, List.mem_cons] at hn
    rcases hn with rfl | hn
    · exact h
    · obtain ⟨entity, -, -, -, -, hrels⟩ := h
      exact wellFormed_of_mem_nodesOf hrels n hn

theorem wellFormed_of_mem_nodesOf {catalog : Catalog} {entity : Entity} {path : FieldPath} :
    ∀ {relations : List RelationSelection}, RelationsWellFormed catalog entity path relations →
      ∀ n ∈ nodesOf relations, n.WellFormed catalog
  | [], _, n, hn => by simp [nodesOf] at hn
  | .mk field args node :: rest, h, n, hn => by
    obtain ⟨-, -, hnode, hrest⟩ := h
    rw [nodesOf, List.mem_append] at hn
    rcases hn with hn | hn
    · exact wellFormed_of_mem_nodes hnode n hn
    · exact wellFormed_of_mem_nodesOf hrest n hn

end

mutual

/-- The path of a node is a beginning of the path of every node below it. -/
theorem path_prefix_of_mem_nodes {catalog : Catalog} : ∀ {node : SelectionNode},
    node.WellFormed catalog → ∀ n ∈ node.nodes, node.path.segments <+: n.path.segments
  | .mk name path scalars relations, h, n, hn => by
    rw [nodes, List.mem_cons] at hn
    rcases hn with rfl | hn
    · exact List.prefix_refl _
    · obtain ⟨entity, -, -, -, -, hrels⟩ := h
      obtain ⟨r, -, hr⟩ := path_prefix_of_mem_nodesOf hrels n hn
      exact (List.prefix_append path.segments [r.field]).trans hr

/-- What is below a relation has its field next in the path. -/
theorem path_prefix_of_mem_nodesOf {catalog : Catalog} {entity : Entity} {path : FieldPath} :
    ∀ {relations : List RelationSelection}, RelationsWellFormed catalog entity path relations →
      ∀ n ∈ nodesOf relations, ∃ r ∈ relations, (path.child r.field).segments <+: n.path.segments
  | [], _, n, hn => by simp [nodesOf] at hn
  | .mk field args node :: rest, h, n, hn => by
    obtain ⟨-, hpath, hnode, hrest⟩ := h
    rw [nodesOf, List.mem_append] at hn
    rcases hn with hn | hn
    · refine ⟨.mk field args node, List.mem_cons_self, ?_⟩
      have := path_prefix_of_mem_nodes hnode n hn
      rwa [hpath] at this
    · obtain ⟨r, hr, hpre⟩ := path_prefix_of_mem_nodesOf hrest n hn
      exact ⟨r, List.mem_cons_of_mem _ hr, hpre⟩

end

/-- Two paths that go on from one place by different fields are different. -/
theorem ne_of_child_prefix {path p q : FieldPath} {f g : String} (hne : f ≠ g)
    (hp : (path.child f).segments <+: p.segments) (hq : (path.child g).segments <+: q.segments) :
    p ≠ q := by
  rintro rfl
  have heq := List.prefix_of_prefix_length_le hp hq (by simp [FieldPath.child])
  have := heq.eq_of_length (by simp [FieldPath.child])
  simp only [FieldPath.child, List.append_cancel_left_eq, List.cons.injEq, and_true] at this
  exact hne this

mutual

/-- The nodes of a tree have different paths. -/
theorem nodup_paths {catalog : Catalog} : ∀ {node : SelectionNode}, node.WellFormed catalog →
    (node.nodes.map path).Nodup
  | .mk name path scalars relations, h => by
    obtain ⟨entity, -, -, -, hfields, hrels⟩ := h
    rw [nodes, List.map_cons, List.nodup_cons]
    refine ⟨fun hmem => ?_, nodup_paths_nodesOf hfields hrels⟩
    obtain ⟨n, hn, heq⟩ := List.mem_map.mp hmem
    obtain ⟨r, -, hpre⟩ := path_prefix_of_mem_nodesOf hrels n hn
    have hlen := hpre.length_le
    rw [heq] at hlen
    simp only [SelectionNode.path, FieldPath.child, List.length_append, List.length_singleton]
      at hlen
    omega

/-- So have the nodes below several relations of one node. -/
theorem nodup_paths_nodesOf {catalog : Catalog} {entity : Entity} {path : FieldPath} :
    ∀ {relations : List RelationSelection}, (relations.map RelationSelection.field).Nodup →
      RelationsWellFormed catalog entity path relations →
      ((nodesOf relations).map SelectionNode.path).Nodup
  | [], _, _ => List.nodup_nil
  | .mk field args node :: rest, hfields, h => by
    obtain ⟨-, hpath, hnode, hrest⟩ := h
    rw [List.map_cons, List.nodup_cons] at hfields
    rw [nodesOf, List.map_append]
    refine List.nodup_append.mpr
      ⟨nodup_paths hnode, nodup_paths_nodesOf hfields.2 hrest, ?_⟩
    intro p hp q hq
    obtain ⟨n, hn, rfl⟩ := List.mem_map.mp hp
    obtain ⟨m, hm, rfl⟩ := List.mem_map.mp hq
    obtain ⟨r, hr, hpre⟩ := path_prefix_of_mem_nodesOf hrest m hm
    have hnpre := path_prefix_of_mem_nodes hnode n hn
    rw [hpath] at hnpre
    refine ne_of_child_prefix (fun h => ?_) hnpre hpre
    refine hfields.1 ?_
    rw [show RelationSelection.field (.mk field args node) = r.field from h]
    exact List.mem_map_of_mem hr

end

/-- No relation that a node selects has the name of its entity's unique column. -/
def SparesUniqueColumn (catalog : Catalog) (s : SelectionNode) : Prop :=
  ∀ r ∈ s.relations, ∀ e, catalog.get? s.entity = some e → r.field ≠ e.uniqueColumn

end SelectionNode

namespace Sample

theorem sparesUniqueColumn : ∀ s ∈ tree.root.nodes, s.SparesUniqueColumn catalog := by
  simp only [tree, SelectionNode.nodes, SelectionNode.nodesOf, List.append_nil,
    List.forall_mem_cons]
  refine ⟨?_, ?_, ?_, by simp⟩ <;> intro r hr e he
  · cases List.mem_singleton.mp hr
    cases he
    decide
  · cases List.mem_singleton.mp hr
    cases he
    decide
  · cases hr

end Sample
end NestedRead
