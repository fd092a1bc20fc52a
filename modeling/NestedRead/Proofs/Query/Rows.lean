import NestedRead.Proofs.Query.Agreement
import NestedRead.Proofs.Query.Loops

/-!
# The rows of environments

A `View` says what values are as records: the fields that a node shows of a value, its id, and the
children that a relation leads to. Under a view an environment becomes one row, the columns of each
node one after the other and null where the node has no value. Reading such a row gives back exactly
that: for the alias of a node its fields, and its id.
-/

set_option autoImplicit false

namespace NestedRead

variable {V : Type}

/-- Values as records. -/
structure View (V : Type) where
  fields : NodePlan → V → Json.Members
  id : NodePlan → V → EntityId
  kids : Link → V → List V

/-- The fields that a node shows of a value, all of them null where there is none. -/
def View.shown (view : View V) (n : NodePlan) : Option V → Json.Members
  | some v => view.fields n v
  | none => n.names.map (·, .null)

/-- The columns of a node with these fields. -/
def NodePlan.cells (separator : String) (n : NodePlan) (fields : Json.Members) : Json.Members :=
  fields.map fun (field, value) => (columnKey n.tableAlias separator field, value)

namespace Plan

/-- The row of an environment. -/
def row (separator : String) (view : View V) (plan : Plan) (env : Env V) : Json.Members :=
  plan.nodes.flatMap fun n => n.cells separator (view.shown n (env n.tableAlias))

/-- What the values of an environment show are records of the nodes: they have the projected names,
and their unique column holds their id. -/
structure Proper (plan : Plan) (view : View V) (env : Env V) : Prop where
  names : ∀ n ∈ plan.nodes, ∀ v, env n.tableAlias = some v →
    ((view.fields n v).map Prod.fst).Perm n.names
  id : ∀ n ∈ plan.nodes, ∀ v, env n.tableAlias = some v →
    ∃ value, Json.get? (view.fields n v) n.entity.uniqueColumn = some value ∧
      EntityId.ofJson value = .ok (some (view.id n v))

variable {separator : String} {plan : Plan} {view : View V} {env : Env V}

/-! ## The fields of a row -/

/-- One list of many with different keys is picked out by its key. -/
theorem flatMap_ite_of_nodup {α β κ : Type} [DecidableEq κ] {key : α → κ} {g : α → List β} {x : α} :
    ∀ {xs : List α}, (xs.map key).Nodup → x ∈ xs →
      (xs.flatMap fun y => if key y = key x then g y else []) = g x
  | [], _, hx => absurd hx (by simp)
  | y :: ys, hnodup, hx => by
    rw [List.map_cons, List.nodup_cons] at hnodup
    rw [List.flatMap_cons]
    rcases List.mem_cons.mp hx with rfl | hx
    · have hrest : (ys.flatMap fun y => if key y = key x then g y else []) = [] := by
        rw [List.flatMap_eq_nil_iff]
        intro y hy
        exact if_neg fun heq : key y = key x => hnodup.1 (List.mem_map.mpr ⟨y, hy, heq⟩)
      rw [if_pos rfl, hrest, List.append_nil]
    · have hne : key y ≠ key x := fun heq => hnodup.1 (List.mem_map.mpr ⟨x, hx, heq.symm⟩)
      rw [if_neg hne, List.nil_append, flatMap_ite_of_nodup hnodup.2 hx]

theorem fieldsIn_append (layout : Layout) (row more : Json.Members) (tableAlias : String) :
    layout.fieldsIn (row ++ more) tableAlias
      = layout.fieldsIn row tableAlias ++ layout.fieldsIn more tableAlias := by
  simp [Layout.fieldsIn, Layout.columnsIn, RowIndex.fieldsOf]

theorem fieldsIn_flatMap {α : Type} (layout : Layout) (f : α → Json.Members)
    (tableAlias : String) : ∀ xs : List α, layout.fieldsIn (xs.flatMap f) tableAlias
      = xs.flatMap fun x => layout.fieldsIn (f x) tableAlias
  | [] => rfl
  | x :: xs => by
    rw [List.flatMap_cons, List.flatMap_cons, fieldsIn_append, fieldsIn_flatMap layout f tableAlias]

/-- The columns of a node are the fields of its alias and of no other. -/
theorem Clear.fieldsIn_cells (h : plan.Clear separator) {n : NodePlan} (hn : n ∈ plan.nodes)
    (tableAlias : String) : ∀ fields : Json.Members,
      (plan.layout separator).fieldsIn (n.cells separator fields) tableAlias
        = if n.tableAlias = tableAlias then fields else []
  | [] => by simp [NodePlan.cells, Layout.fieldsIn, Layout.columnsIn, RowIndex.fieldsOf]
  | (field, value) :: rest => by
    have hcell : (plan.layout separator).fieldsIn
        [(columnKey n.tableAlias separator field, value)] tableAlias
          = if n.tableAlias = tableAlias then [(field, value)] else [] := by
      unfold Layout.fieldsIn Layout.columnsIn RowIndex.fieldsOf
      simp only [List.filterMap_cons, List.filterMap_nil, h.split? hn field, Option.map_some]
      by_cases halias : n.tableAlias = tableAlias <;> simp [halias]
    have hcons : n.cells separator ((field, value) :: rest)
        = [(columnKey n.tableAlias separator field, value)] ++ n.cells separator rest := rfl
    rw [hcons, fieldsIn_append, hcell, h.fieldsIn_cells hn tableAlias rest]
    split
    · rfl
    · rfl

theorem Clear.fieldsIn_row (h : plan.Clear separator) (view : View V) (env : Env V)
    {n : NodePlan} (hn : n ∈ plan.nodes) :
    (plan.layout separator).fieldsIn (plan.row separator view env) n.tableAlias
      = view.shown n (env n.tableAlias) := by
  rw [row, fieldsIn_flatMap]
  rw [List.flatMap_congr fun m hm => h.fieldsIn_cells hm n.tableAlias _]
  exact flatMap_ite_of_nodup h.aliases hn

/-! ## The keys of a row -/

theorem Proper.names_shown (hproper : plan.Proper view env) {n : NodePlan} (hn : n ∈ plan.nodes) :
    ((view.shown n (env n.tableAlias)).map Prod.fst).Perm n.names := by
  cases hv : env n.tableAlias with
  | none =>
    rw [View.shown, List.map_map]
    exact List.Perm.of_eq (List.map_id _)
  | some v => exact hproper.names n hn v hv

theorem Proper.keys_row (hproper : plan.Proper view env) :
    ((plan.row separator view env).map Prod.fst).Perm (plan.columnNames separator) := by
  rw [row, columnNames, List.map_flatMap]
  refine List.Perm.flatMap (List.Perm.refl _) fun n hn => ?_
  rw [NodePlan.cells, List.map_map]
  have hnames := (hproper.names_shown hn).map (columnKey n.tableAlias separator)
  rw [List.map_map] at hnames
  exact hnames

theorem Clear.get?_row (h : plan.Clear separator) (hproper : plan.Proper view env) {n : NodePlan}
    (hn : n ∈ plan.nodes) {field : String} {value : Json}
    (hvalue : Json.get? (view.shown n (env n.tableAlias)) field = some value) :
    Json.get? (plan.row separator view env) (columnKey n.tableAlias separator field)
      = some value := by
  refine Json.get?_of_mem (hproper.keys_row.nodup_iff.mpr h.nodup_columnNames) ?_
  exact List.mem_flatMap.mpr ⟨n, hn, List.mem_map.mpr ⟨_, Json.mem_of_get? hvalue, rfl⟩⟩

/-- A value of null has no id and does not prevent one. -/
theorem get?_shown_none (n : NodePlan) :
    Json.get? (view.shown n none) n.entity.uniqueColumn = some .null := by
  have hmem : n.entity.uniqueColumn ∈ n.names := n.entity.uniqueColumn_mem_projectedNames _
  rw [View.shown]
  generalize n.names = names at hmem
  induction names with
  | nil => cases hmem
  | cons name rest ih =>
    rw [List.map_cons, Json.get?, List.lookup_cons]
    split
    · rfl
    · rename_i hne
      refine ih ((List.mem_cons.mp hmem).resolve_left ?_)
      rw [beq_eq_false_iff_ne] at hne
      exact hne

theorem Proper.exists_unique (hproper : plan.Proper view env) {n : NodePlan}
    (hn : n ∈ plan.nodes) : ∃ value,
      Json.get? (view.shown n (env n.tableAlias)) n.entity.uniqueColumn = some value ∧
        EntityId.ofJson value = .ok ((env n.tableAlias).map (view.id n)) := by
  cases hv : env n.tableAlias with
  | none => exact ⟨.null, get?_shown_none n, rfl⟩
  | some v => exact hproper.id n hn v hv

theorem Clear.idIn?_row (h : plan.Clear separator) (hproper : plan.Proper view env) {n : NodePlan}
    (hn : n ∈ plan.nodes) :
    (plan.layout separator).idIn? (plan.row separator view env) n.binding
      = (env n.tableAlias).map (view.id n) := by
  obtain ⟨value, hvalue, hid⟩ := hproper.exists_unique hn
  have hget := h.get?_row hproper hn hvalue
  refine Eq.trans (congrArg (·.bind EntityId.ofJson?) hget) ?_
  exact (EntityId.ofJson_eq_ok_iff.mp hid).2

theorem Clear.reads_row (h : plan.Clear separator) (hproper : plan.Proper view env) :
    (plan.layout separator).Reads plan.node.tableAlias (plan.row separator view env) := by
  refine h.reads hproper.keys_row fun b hb value hvalue => ?_
  obtain ⟨n, hn, rfl⟩ := List.mem_map.mp hb
  obtain ⟨found, hfound, hid⟩ := hproper.exists_unique hn
  have hget := h.get?_row hproper hn hfound
  obtain rfl : value = found := Option.some.inj (hvalue.symm.trans hget)
  exact (EntityId.ofJson_eq_ok_iff.mp hid).1

end Plan
end NestedRead
