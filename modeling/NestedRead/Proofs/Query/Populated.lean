import NestedRead.Proofs.Query.Reconstruction

/-!
# Rows of what steps reach

Two things are read back that are told apart by what their values are: forests of records, and
databases whose rows relations lead to. In both a value under the alias of a node has a property of
that node, the roots have it, and it is handed on along every link (`Plan.Populates`). Where steps
offer the children, whatever they reach from the roots then shows the values with all their
children, so its rows are nested into the unfoldings of the roots.
-/

set_option autoImplicit false

namespace NestedRead

namespace Plan

variable {V : Type}

variable {separator : String} {plan : Plan} {view : View V} {P : NodePlan → V → Prop}
  {roots : List V} {step : Link → Env V → List (Env V)}

/-- Values that stand at the nodes of a plan, from some roots on: they are records of their nodes,
their ids tell them apart, and the children along a link stand in the order of theirs. -/
structure Populates (plan : Plan) (view : View V) (P : NodePlan → V → Prop) (roots : List V) :
    Prop where
  root : ∀ v ∈ roots, P plan.node v
  child : ∀ l ∈ plan.links, ∀ v, P l.parent v → ∀ k ∈ view.kids l v, P l.child k
  names : ∀ n ∈ plan.nodes, ∀ v, P n v → ((view.fields n v).map Prod.fst).Perm n.names
  id : ∀ n ∈ plan.nodes, ∀ v, P n v →
    ∃ value, Json.get? (view.fields n v) n.entity.uniqueColumn = some value ∧
      EntityId.ofJson value = .ok (some (view.id n v))
  same : ∀ n ∈ plan.nodes, ∀ v v', P n v → P n v' → view.id n v = view.id n v' → v = v'
  ascending : ∀ l ∈ plan.links, ∀ v, P l.parent v →
    Ordered.Ascending EntityId.cmp ((view.kids l v).map (view.id l.child))
  distinct : (roots.map (view.id plan.node)).Nodup

/-- The environments that steps reach from a root. -/
def reached (step : Link → Env V → List (Env V)) (plan : Plan) (v : V) : List (Env V) :=
  extend step plan.links (Env.only plan.node.tableAlias v)

/-- The root stays where it is. -/
theorem eq_root_of_mem_reached (haliases : plan.aliases.Nodup)
    (hoffers : ∀ l ∈ plan.links, l.Offers view.kids step) {v : V} {env : Env V}
    (henv : env ∈ reached step plan v) : env plan.node.tableAlias = some v := by
  rw [extend_frame hoffers henv _ ((fresh_links haliases).known _ List.mem_cons_self),
    Env.only_self]

/-- What is reached from populated roots shows them with all their children. -/
theorem Populates.shows (h : plan.Populates view P roots) (haliases : plan.aliases.Nodup)
    (hoffers : ∀ l ∈ plan.links, l.Offers view.kids step) :
    plan.Shows view (roots.flatMap (reached step plan)) := by
  have hfresh := fresh_links haliases
  -- Every value that is shown is one of the population: the root's is, and each child's follows
  -- from its parent's.
  have hP : ∀ env ∈ roots.flatMap (reached step plan),
      ∀ n ∈ plan.nodes, ∀ v, env n.tableAlias = some v → P n v := by
    intro env henv
    obtain ⟨root, hroot, henv⟩ := List.mem_flatMap.mp henv
    refine forall_of_fits (fun v hv => ?_) (extend_sound hfresh hoffers henv) h.child
    rw [eq_root_of_mem_reached haliases hoffers henv] at hv
    exact Option.some.inj hv ▸ h.root root hroot
  refine ⟨fun env henv => ⟨fun n hn v hv => ?_, fun n hn v hv => ?_⟩, ?_, ?_, ?_, ?_⟩
  · exact h.names n hn v (hP env henv n hn v hv)
  · exact h.id n hn v (hP env henv n hn v hv)
  · intro n hn env henv env' henv' v v' hv hv'
    exact h.same n hn v v' (hP env henv n hn v hv) (hP env' henv' n hn v' hv')
  · intro env henv
    obtain ⟨root, -, henv⟩ := List.mem_flatMap.mp henv
    exact extend_sound hfresh hoffers henv
  · intro env henv l hl v hv k hk
    obtain ⟨root, hroot, henv⟩ := List.mem_flatMap.mp henv
    obtain ⟨found, hfound, hshown⟩ := extend_complete hfresh hoffers henv l hl v hv k hk
    exact ⟨found, List.mem_flatMap.mpr ⟨root, hroot, hfound⟩, hshown⟩
  · intro env henv l hl v hv
    exact h.ascending l hl v (hP env henv _ (parent_mem_nodes hl) v hv)

/-- **Rows reached from populated roots are nested into the unfoldings of the roots.** -/
theorem Populates.nest_rows (h : plan.Populates view P roots) (hclear : plan.Clear separator)
    (haliases : plan.aliases.Nodup) (hoffers : ∀ l ∈ plan.links, l.Offers view.kids step)
    (hmultiplicity : ∀ l ∈ plan.links, l.child.multiplicity = some l.edge.relation.multiplicity)
    (hapart : plan.FieldsApart) (args : RootArgs) :
    (SelectionTree.nest ⟨plan.selection, args⟩ (plan.layout separator)
      (((roots.flatMap (reached step plan)).map (plan.row separator view)).map Json.object)).outcome
        = .ok (roots.map (plan.unfold view)) := by
  refine Plan.nest_rows hclear (h.shows haliases hoffers) hmultiplicity hapart args rfl
    (fun v _ => ?_) (fun v _ env henv => ?_) h.distinct
  · obtain ⟨env, henv⟩ := extend_ne_nil hoffers (Env.only plan.node.tableAlias v)
    exact List.ne_nil_of_mem henv
  · exact eq_root_of_mem_reached haliases hoffers henv

end Plan
end NestedRead
