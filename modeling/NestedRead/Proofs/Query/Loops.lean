import NestedRead.Proofs.Query.PlanNodes
import NestedRead.Proofs.Sql.Loops

/-!
# Nested loops over the links of a plan

The joins of a link extend an environment by the alias of its child in every way that the rows
allow, and taking a forest of records apart does the same; what both have in common is here. A step
for a link offers the children of the value under the parent's alias: it extends the environment by
one of them or by none, never by anything else, it leaves every other alias alone, and each child
comes up in some extension (`Offers`).

Running the steps of a list of links one inside the other keeps all of that (`extend_frame`,
`extend_sound`, `extend_complete`), by induction on the list: parents come before their children and
no alias is taken twice, so what a step has found stands until the end.
-/

set_option autoImplicit false

namespace NestedRead

variable {V : Type}

/-! ## What a step offers -/

/-- The value that a child has in an environment is one of the children that its parent's value has,
or there is none. -/
def Link.Fits (kids : Link → V → List V) (l : Link) (env : Env V) : Prop :=
  env l.child.tableAlias = none ∨ ∃ v, env l.parent.tableAlias = some v ∧
    ∃ k ∈ kids l v, env l.child.tableAlias = some k

/-- A step for a link offers the children of the parent's value and touches no other alias. -/
structure Link.Offers (kids : Link → V → List V) (step : Link → Env V → List (Env V))
    (l : Link) : Prop where
  frame : ∀ env, ∀ env' ∈ step l env, ∀ a, a ∉ l.aliases → env' a = env a
  sound : ∀ env, ∀ env' ∈ step l env, l.Fits kids env'
  complete : ∀ env v, env l.parent.tableAlias = some v → ∀ k ∈ kids l v,
    ∃ env' ∈ step l env, env' l.child.tableAlias = some k
  nonempty : ∀ env, step l env ≠ []

section extend

variable {kids : Link → V → List V} {step : Link → Env V → List (Env V)}

/-- Only the aliases of the links change. -/
theorem extend_frame : ∀ {ls : List Link}, (∀ l ∈ ls, l.Offers kids step) →
    ∀ {env env' : Env V}, env' ∈ extend step ls env →
      ∀ a, a ∉ ls.flatMap Link.aliases → env' a = env a
  | [], _, env, env', henv, a, _ => by
    rw [extend, List.mem_singleton] at henv
    rw [henv]
  | l :: rest, h, env, env', henv, a, ha => by
    obtain ⟨hl, hrest⟩ := List.forall_mem_cons.mp h
    rw [extend] at henv
    obtain ⟨mid, hmid, henv⟩ := List.mem_flatMap.mp henv
    rw [List.flatMap_cons, List.mem_append, not_or] at ha
    rw [extend_frame hrest henv a ha.2, hl.frame env mid hmid a ha.1]

theorem extend_ne_nil : ∀ {ls : List Link}, (∀ l ∈ ls, l.Offers kids step) →
    ∀ env : Env V, ∃ env', env' ∈ extend step ls env
  | [], _, env => ⟨env, by simp [extend]⟩
  | l :: rest, h, env => by
    obtain ⟨hl, hrest⟩ := List.forall_mem_cons.mp h
    obtain ⟨mid, hmid⟩ := List.exists_mem_of_ne_nil _ (hl.nonempty env)
    obtain ⟨env', henv'⟩ := extend_ne_nil hrest mid
    exact ⟨env', List.mem_flatMap.mpr ⟨mid, hmid, henv'⟩⟩

/-- The links of a list have aliases of their own, and none is that of a node that is known before.
-/
structure Fresh (known : List NodePlan) (ls : List Link) : Prop where
  parents : Plan.ParentsFirst known ls
  nodup : (ls.flatMap Link.aliases).Nodup
  known : ∀ n ∈ known, n.tableAlias ∉ ls.flatMap Link.aliases

theorem Fresh.tail {known : List NodePlan} {l : Link} {rest : List Link}
    (h : Fresh known (l :: rest)) : Fresh (l.child :: known) rest := by
  have hnodup := h.nodup
  rw [List.flatMap_cons, List.nodup_append] at hnodup
  refine ⟨h.parents.2, hnodup.2.1, fun n hn hmem => ?_⟩
  rcases List.mem_cons.mp hn with rfl | hn
  · exact hnodup.2.2 _ l.child_mem_aliases _ hmem rfl
  · exact h.known n hn (by rw [List.flatMap_cons]; exact List.mem_append_right _ hmem)

/-- The aliases of a fresh link are different, and its parent's is none of them. -/
theorem Fresh.link : ∀ {ls : List Link} {known : List NodePlan}, Fresh known ls → ∀ l ∈ ls,
    l.parent.tableAlias ∉ l.aliases ∧ l.aliases.Nodup
  | [], _, _, l, hl => absurd hl (by simp)
  | m :: rest, known, h, l, hl => by
    rcases List.mem_cons.mp hl with rfl | hl
    · have hnodup := h.nodup
      rw [List.flatMap_cons, List.nodup_append] at hnodup
      refine ⟨fun hmem => h.known _ h.parents.1 ?_, hnodup.1⟩
      rw [List.flatMap_cons]
      exact List.mem_append_left _ hmem
    · exact h.tail.link l hl

theorem Fresh.head {known : List NodePlan} {l : Link} {rest : List Link}
    (h : Fresh known (l :: rest)) (hrest : ∀ m ∈ rest, m.Offers kids step) {env env' : Env V}
    (henv : env' ∈ extend step rest env) :
    env' l.parent.tableAlias = env l.parent.tableAlias ∧
      env' l.child.tableAlias = env l.child.tableAlias := by
  have htail := h.tail
  exact ⟨extend_frame hrest henv _ (htail.known _ (List.mem_cons_of_mem _ h.parents.1)),
    extend_frame hrest henv _ (htail.known _ List.mem_cons_self)⟩

/-- In every extension each child has a value that its parent's value offers. -/
theorem extend_sound : ∀ {ls : List Link} {known : List NodePlan}, Fresh known ls →
    (∀ l ∈ ls, l.Offers kids step) → ∀ {env env' : Env V}, env' ∈ extend step ls env →
      ∀ l ∈ ls, l.Fits kids env'
  | [], _, _, _, _, _, _, l, hl => absurd hl (by simp)
  | m :: rest, known, hfresh, h, env, env', henv, l, hl => by
    obtain ⟨hm, hrest⟩ := List.forall_mem_cons.mp h
    rw [extend] at henv
    obtain ⟨mid, hmid, hrun⟩ := List.mem_flatMap.mp henv
    -- The later links leave the aliases of this one as its step set them.
    rcases List.mem_cons.mp hl with rfl | hl
    · obtain ⟨hparent, hchild⟩ := hfresh.head hrest hrun
      unfold Link.Fits
      rw [hparent, hchild]
      exact hm.sound env mid hmid
    · exact extend_sound hfresh.tail hrest hrun l hl

/-- Where a parent has a value in some extension, each child of it comes up beside it in one. -/
theorem extend_complete : ∀ {ls : List Link} {known : List NodePlan}, Fresh known ls →
    (∀ l ∈ ls, l.Offers kids step) → ∀ {env env' : Env V}, env' ∈ extend step ls env →
      ∀ l ∈ ls, ∀ v : V, env' l.parent.tableAlias = some v → ∀ k ∈ kids l v,
        ∃ found ∈ extend step ls env, found l.parent.tableAlias = some v ∧
          found l.child.tableAlias = some k
  | [], _, _, _, _, _, _, l, hl => absurd hl (by simp)
  | m :: rest, known, hfresh, h, env, env', henv, l, hl => by
    intro v hv k hk
    obtain ⟨hm, hrest⟩ := List.forall_mem_cons.mp h
    rw [extend] at henv
    obtain ⟨mid, hmid, hrun⟩ := List.mem_flatMap.mp henv
    rcases List.mem_cons.mp hl with rfl | hl
    · -- The parent had its value before the step, so the step could have offered this child.
      have hframe : ∀ mid ∈ step l env, mid l.parent.tableAlias = env l.parent.tableAlias := by
        intro mid hmid
        refine hm.frame env mid hmid _ fun hmem => hfresh.known _ hfresh.parents.1 ?_
        rw [List.flatMap_cons]
        exact List.mem_append_left _ hmem
      rw [(hfresh.head hrest hrun).1, hframe mid hmid] at hv
      obtain ⟨other, hother, hchild⟩ := hm.complete env v hv k hk
      obtain ⟨found, hfound⟩ := extend_ne_nil hrest other
      obtain ⟨hparent', hchild'⟩ := hfresh.head hrest hfound
      refine ⟨found, List.mem_flatMap.mpr ⟨other, hother, hfound⟩, ?_, hchild'.trans hchild⟩
      rw [hparent', hframe other hother, hv]
    · obtain ⟨found, hfound, hparent, hchild⟩ :=
        extend_complete hfresh.tail hrest hrun l hl v hv k hk
      exact ⟨found, List.mem_flatMap.mpr ⟨mid, hmid, hfound⟩, hparent, hchild⟩

end extend

/-- What holds of the values of known nodes and is handed from a parent's value to its children
holds of the values of all nodes that links lead to. -/
theorem Plan.ParentsFirst.forall_of_fits {kids : Link → V → List V} {P : NodePlan → V → Prop}
    {env : Env V} : ∀ {ls : List Link} {known : List NodePlan}, ParentsFirst known ls →
      (∀ n ∈ known, ∀ v, env n.tableAlias = some v → P n v) →
      (∀ l ∈ ls, l.Fits kids env) →
      (∀ l ∈ ls, ∀ v, P l.parent v → ∀ k ∈ kids l v, P l.child k) →
      ∀ l ∈ ls, ∀ v, env l.child.tableAlias = some v → P l.child v
  | [], _, _, _, _, _, l, hl => absurd hl (by simp)
  | m :: rest, known, hfirst, hknown, hfits, hstep, l, hl => by
    obtain ⟨hm, hrest⟩ := List.forall_mem_cons.mp hfits
    obtain ⟨hmstep, hstep⟩ := List.forall_mem_cons.mp hstep
    have hchild : ∀ v, env m.child.tableAlias = some v → P m.child v := by
      intro v hv
      rcases hm with hnone | ⟨w, hw, k, hk, hsome⟩
      · rw [hv] at hnone; cases hnone
      · rw [hv] at hsome
        cases hsome
        exact hmstep w (hknown _ hfirst.1 w hw) v hk
    rcases List.mem_cons.mp hl with rfl | hl
    · exact hchild
    · exact hfirst.2.forall_of_fits (List.forall_mem_cons.mpr ⟨hchild, hknown⟩) hrest hstep l hl

/-- The same for a whole plan, from its root on. -/
theorem Plan.forall_of_fits {kids : Link → V → List V} {P : NodePlan → V → Prop} {plan : Plan}
    {env : Env V} (hroot : ∀ v, env plan.node.tableAlias = some v → P plan.node v)
    (hfits : ∀ l ∈ plan.links, l.Fits kids env)
    (hstep : ∀ l ∈ plan.links, ∀ v, P l.parent v → ∀ k ∈ kids l v, P l.child k) :
    ∀ n ∈ plan.nodes, ∀ v, env n.tableAlias = some v → P n v := by
  intro n hn
  have hfirst : ParentsFirst [plan.node] plan.links := parentsFirst_links List.mem_cons_self
  have hknown : ∀ n ∈ [plan.node], ∀ v, env n.tableAlias = some v → P n v := by
    intro n hn
    rw [List.mem_singleton.mp hn]
    exact hroot
  rcases List.mem_cons.mp hn with rfl | hn
  · exact hroot
  · obtain ⟨l, hl, rfl⟩ := List.mem_map.mp hn
    exact hfirst.forall_of_fits hknown hfits hstep l hl

theorem Plan.fresh_links {plan : Plan} (h : plan.aliases.Nodup) :
    Fresh [plan.node] plan.links := by
  rw [aliases, List.nodup_cons] at h
  refine ⟨parentsFirst_links List.mem_cons_self, h.2, fun n hn => ?_⟩
  rw [List.mem_singleton.mp hn]
  exact h.1

end NestedRead
