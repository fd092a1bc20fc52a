import Mathlib
import NestedRead.Proofs.Query.Independent
import NestedRead.Proofs.Rows.Repeated

/-!
# A result depends on the set of rows

The scan of rows is sensitive to their order: the roots stand in the order in which they are first
seen, and of values that differ the first one stays. Where rows with the same id do not differ,
nothing is left of the order but that of the roots, for objects are pooled by their ids, and the
children of an id are a set that stands in the order of the ids. And whatever the rows hold, a row
that has been read before says nothing new, wherever it comes again.

Rows are the same here if they have the same columns with the same values and ids. The order of the
columns does not matter.
-/

set_option autoImplicit false

namespace NestedRead

/-! ## Sets of rows -/

namespace Layout

/-- One row as another: they agree in the columns of all bindings. -/
def SameRow (layout : Layout) (row row' : Json) : Prop :=
  ∀ b ∈ layout.bindings, layout.AgreeAt row row' b

/-- The same rows on both sides, in any order and each any number of times. -/
structure SameRows (layout : Layout) (rows rows' : List Json) : Prop where
  forth : ∀ row ∈ rows, ∃ row' ∈ rows', layout.SameRow row row'
  back : ∀ row' ∈ rows', ∃ row ∈ rows, layout.SameRow row row'

/-- Rows that carry the same id for a binding agree in the columns of it that both of them have. -/
def Consistent (layout : Layout) (rows : List Json) : Prop :=
  ∀ row ∈ rows, ∀ row' ∈ rows, ∀ b ∈ layout.bindings, ∀ id,
    layout.idOf? b row = some id → layout.idOf? b row' = some id → ∀ field value value',
      row.column? (layout.key b.tableAlias field) = some value →
      row'.column? (layout.key b.tableAlias field) = some value' → value.same value' = true

/-- Equal objects are the same row if they carry the same ids. -/
theorem sameRow_of_same {layout : Layout} {members members' : Json.Members}
    (hnodup : (members.map Prod.fst).Nodup)
    (hsame : (Json.object members).same (.object members') = true)
    (hids : ∀ b ∈ layout.bindings, layout.idIn? members b = layout.idIn? members' b) :
    layout.SameRow (.object members) (.object members') := by
  refine fun b hb => ⟨hids b hb, fun field => ?_⟩
  rw [Json.column?, Json.column?]
  cases hvalue : Json.get? members (layout.key b.tableAlias field) with
  | none =>
    rw [Json.get?_eq_none_iff, (Json.keys_perm_of_same hnodup hsame).mem_iff,
      ← Json.get?_eq_none_iff] at hvalue
    rw [hvalue]
    exact .none
  | some value =>
    obtain ⟨value', hvalue', hsame⟩ :=
      (Json.same_object_iff.mp hsame).2 _ (Json.mem_of_get? hvalue)
    rw [hvalue']
    exact .some hsame

end Layout

/-! ## What sets of rows determine -/

/-- Where something is found on one side exactly if it is on the other, and all that can be found is
related, what is found first is. -/
theorem rel_findSome?_of_forall {α β : Type} {S : β → β → Prop} {f : α → Option β} {xs ys : List α}
    (hsome : (∃ x ∈ xs, (f x).isSome = true) ↔ ∃ y ∈ ys, (f y).isSome = true)
    (h : ∀ x ∈ xs, ∀ y ∈ ys, ∀ v w, f x = some v → f y = some w → S v w) :
    Option.Rel S (xs.findSome? f) (ys.findSome? f) := by
  rw [← List.findSome?_isSome_iff, ← List.findSome?_isSome_iff] at hsome
  cases hv : xs.findSome? f with
  | none =>
    rw [hv, Option.isSome_none, Bool.false_eq_true, false_iff, Option.not_isSome_iff_eq_none]
      at hsome
    rw [hsome]
    exact .none
  | some v =>
    rw [hv, Option.isSome_some, eq_self_iff_true, true_iff, Option.isSome_iff_exists] at hsome
    obtain ⟨w, hw⟩ := hsome
    rw [hw]
    obtain ⟨x, hx, hfx⟩ := List.exists_of_findSome?_eq_some hv
    obtain ⟨y, hy, hfy⟩ := List.exists_of_findSome?_eq_some hw
    exact .some (h x hx y hy v w hfx hfy)

theorem nodup_eraseDups {α : Type} [BEq α] [LawfulBEq α] (xs : List α) : xs.eraseDups.Nodup := by
  induction xs using List.reverseRecOn with
  | nil => exact List.nodup_nil
  | append_singleton xs x ih =>
    rw [List.eraseDups_append]
    by_cases hx : x ∈ xs
    · simpa [List.removeAll, hx] using ih
    · have hlast : ([x].removeAll xs).eraseDups = [x] := by
        simp [List.removeAll, hx, List.eraseDups_cons]
      rw [hlast, List.nodup_append]
      refine ⟨ih, List.nodup_singleton x, fun y hy z hz heq => hx ?_⟩
      rwa [← List.mem_singleton.mp hz, ← heq, ← List.mem_eraseDups]

namespace Layout

section sameRows

variable {layout : Layout} {rows rows' : List Json.Members}
  (h : layout.SameRows (rows.map Json.object) (rows'.map Json.object))

include h

/-- What holds of some row does so on both sides, if it does not tell the same rows apart. -/
theorem SameRows.exists_mem_iff {P : Json.Members → Prop}
    (hP : ∀ row row', layout.SameRow (.object row) (.object row') → (P row ↔ P row')) :
    (∃ row ∈ rows, P row) ↔ ∃ row' ∈ rows', P row' := by
  constructor
  · rintro ⟨row, hrow, hp⟩
    obtain ⟨other, hother, hsame⟩ := h.forth _ (List.mem_map_of_mem hrow)
    obtain ⟨row', hrow', rfl⟩ := List.mem_map.mp hother
    exact ⟨row', hrow', (hP row row' hsame).mp hp⟩
  · rintro ⟨row', hrow', hp⟩
    obtain ⟨other, hother, hsame⟩ := h.back _ (List.mem_map_of_mem hrow')
    obtain ⟨row, hrow, rfl⟩ := List.mem_map.mp hother
    exact ⟨row, hrow, (hP row row' hsame).mpr hp⟩

/-- Of consistent rows it does not matter which one comes first. -/
theorem SameRows.rel_firstValue? (hconsistent : layout.Consistent (rows.map Json.object))
    {b : Binding} (hb : b ∈ layout.bindings) (id : EntityId) (field : String) :
    Option.Rel (fun value value' => value.same value' = true)
      (layout.firstValue? b id field rows) (layout.firstValue? b id field rows') := by
  refine rel_findSome?_of_forall (h.exists_mem_iff fun row row' hsame => ?_) ?_
  · rw [Option.isSome_iff_ne_none, Option.isSome_iff_ne_none, ne_eq, ne_eq,
      Json.rel_none_iff ((hsame b hb).value id field)]
  · intro x hx y hy v w hv hw
    -- The row on the right is one on the left, and rows on the left do not differ.
    obtain ⟨other, hother, hsame⟩ := h.back _ (List.mem_map_of_mem hy)
    obtain ⟨x', hx', rfl⟩ := List.mem_map.mp hother
    have hrel := (hsame b hb).value id field
    rw [hw] at hrel
    cases hv' : layout.valueIn? b id field x' with
    | none =>
      rw [hv'] at hrel
      cases hrel
    | some v' =>
      rw [hv'] at hrel
      cases hrel with
      | some hsame =>
        obtain ⟨hid, hget⟩ := Option.ite_none_right_eq_some.mp hv
        obtain ⟨hid', hget'⟩ := Option.ite_none_right_eq_some.mp hv'
        exact Json.same_trans (hconsistent _ (List.mem_map_of_mem hx) _ hother b hb id hid hid'
          field v v' hget hget') hsame

end sameRows

end Layout

namespace Plan

variable {separator : String} {plan : Plan} {rows rows' : List Json.Members}
  {index index' : RowIndex}

/-- The indexes of the same rows are alike at all nodes, where the rows are consistent, and have the
same roots in some order. -/
theorem Recorded.alike_of_sameRows (h : plan.Recorded separator rows index)
    (h' : plan.Recorded separator rows' index')
    (hrows : (plan.layout separator).SameRows (rows.map Json.object) (rows'.map Json.object))
    (hconsistent : (plan.layout separator).Consistent (rows.map Json.object)) :
    RowIndex.Alike (plan.layout separator) plan.selection.edges (fun _ => true) index index' ∧
      index.rootIds.Perm index'.rootIds := by
  have hid : ∀ n ∈ plan.nodes, ∀ row row' : Json.Members,
      (plan.layout separator).SameRow (.object row) (.object row') →
        (plan.layout separator).idIn? row n.binding
          = (plan.layout separator).idIn? row' n.binding :=
    fun n hn row row' hsame => (hsame n.binding (List.mem_map_of_mem hn)).id
  constructor
  · refine h.alike h' (fun n hn _ => hrows.rel_firstValue? hconsistent (List.mem_map_of_mem hn))
      fun l hl _ _ p k => hrows.exists_mem_iff fun x y hsame => ?_
    rw [hid _ (parent_mem_nodes hl) x y hsame, hid _ (child_mem_nodes hl) x y hsame]
  · rw [h.rootIds, h'.rootIds,
      List.perm_ext_iff_of_nodup (nodup_eraseDups _) (nodup_eraseDups _)]
    intro id
    rw [List.mem_eraseDups, List.mem_eraseDups, List.mem_filterMap, List.mem_filterMap]
    refine hrows.exists_mem_iff fun x y hsame => ?_
    rw [hid _ List.mem_cons_self x y hsame]

end Plan

/-- **A result depends on the set of rows, up to the order of the roots.** Lists of the same rows,
where rows with the same id do not differ, have the same results in some order, and everything below
the roots in the same order. And a copy of a row that stands somewhere behind it changes no result,
whether rows differ or not. -/
theorem SelectionTree.nest_rowSet {catalog : Catalog} {config : Config} {entity : String}
    {selection : FieldSelection} {tree : SelectionTree} {compiled : CompiledRead}
    (hcat : catalog.Accepted) (hconfig : config.isValid = true)
    (htree : (SelectionTree.build catalog entity selection).outcome = .ok tree)
    (h : (tree.compile catalog config).outcome = .ok compiled) :
    (∀ rows rows' results results', compiled.layout.SameRows rows rows' →
      compiled.layout.Consistent rows →
      (tree.nest compiled.layout rows).outcome = .ok results →
      (tree.nest compiled.layout rows').outcome = .ok results' →
        ∃ reordered, reordered.Perm results' ∧
          List.Forall₂ (fun value value' => value.same value' = true) results reordered) ∧
    ∀ before row after, row ∈ before → ∀ results,
      (tree.nest compiled.layout (before ++ row :: after)).outcome = .ok results ↔
        (tree.nest compiled.layout (before ++ after)).outcome = .ok results := by
  obtain ⟨hwf, -, -⟩ := SelectionTree.build_wellFormed htree
  obtain ⟨plan, hselection, hclear, hlayout, hruns⟩ :=
    SelectionTree.exists_plan hcat hconfig htree h
  constructor
  · intro rows rows' results results' hrows hconsistent hnest hnest'
    obtain ⟨found, index, rfl, hrecorded, hroots⟩ := hruns hnest
    obtain ⟨found', index', rfl, hrecorded', hroots'⟩ := hruns hnest'
    rw [hlayout] at hrows hconsistent hroots hroots'
    obtain ⟨halike, hperm⟩ := hrecorded.alike_of_sameRows hrecorded' hrows hconsistent
    rw [hselection] at halike
    obtain ⟨reordered, hreordered, hresults⟩ := List.perm_comp_forall₂ hperm hroots'
    refine ⟨reordered, hresults, forall₂_of_common hroots hreordered ?_⟩
    intro id _ value value' hvalue hvalue'
    have hsame := halike.erase_nest hwf (fun _ hedge => hedge) rfl hvalue hvalue'
    rwa [SelectionNode.erase_all, SelectionNode.erase_all] at hsame
  · intro before row after hrow results
    have hedges := hclear.edges
    rw [hselection] at hedges
    rw [hlayout]
    exact SelectionTree.nest_of_mem hclear.root? hedges hclear.separated hrow results

/-! ## Rows of the library -/

namespace Sample

/-- Two authors who share a book, and a sequel that one row knows of. -/
def firstRow : Json.Members :=
  [("base___id", .ofNat 2), ("base___name", .string "B"), ("Book___id", .ofNat 5),
    ("Book___title", .string "T")]

def secondRow : Json.Members :=
  [("base___id", .ofNat 1), ("Book___id", .ofNat 7)]

def thirdRow : Json.Members :=
  [("base___id", .ofNat 2), ("Book___id", .ofNat 5), ("Book_2___id", .string "s")]

/-- The third row with its columns in another order. -/
def thirdRowAgain : Json.Members :=
  [("Book_2___id", .string "s"), ("Book___id", .ofNat 5), ("base___id", .ofNat 2)]

def someRows : List Json := [firstRow, secondRow, thirdRow].map Json.object

/-- The same rows in another order, one of them twice. -/
def shuffledRows : List Json := [secondRow, thirdRowAgain, firstRow, secondRow].map Json.object

def authorOne : Json :=
  .object [("id", .ofNat 1), ("books", .array [.object [("id", .ofNat 7), ("sequel", .null)]])]

def authorTwo : Json :=
  .object [("id", .ofNat 2), ("name", .string "B"), ("books", .array
    [.object [("id", .ofNat 5), ("title", .string "T"),
      ("sequel", .object [("id", .string "s")])]])]

theorem nest_someRows :
    (tree.nest compiled.layout someRows).outcome = .ok [authorTwo, authorOne] := by
  cbv

theorem nest_shuffledRows :
    (tree.nest compiled.layout shuffledRows).outcome = .ok [authorOne, authorTwo] := by
  cbv

theorem sameRows_shuffledRows : compiled.layout.SameRows someRows shuffledRows := by
  have hfirst : compiled.layout.SameRow (.object firstRow) (.object firstRow) :=
    Layout.sameRow_of_same (by decide) (by decide +kernel) fun _ _ => rfl
  have hsecond : compiled.layout.SameRow (.object secondRow) (.object secondRow) :=
    Layout.sameRow_of_same (by decide) (by decide +kernel) fun _ _ => rfl
  have hthird : compiled.layout.SameRow (.object thirdRow) (.object thirdRowAgain) :=
    Layout.sameRow_of_same (by decide) (by decide +kernel) (by decide +kernel)
  constructor
  · simp only [someRows, List.map_cons, List.map_nil, List.forall_mem_cons]
    exact ⟨⟨_, List.mem_map_of_mem (by simp), hfirst⟩, ⟨_, List.mem_map_of_mem (by simp), hsecond⟩,
      ⟨_, List.mem_map_of_mem (by simp), hthird⟩, by simp⟩
  · simp only [shuffledRows, List.map_cons, List.map_nil, List.forall_mem_cons]
    exact ⟨⟨_, List.mem_map_of_mem (by simp), hsecond⟩, ⟨_, List.mem_map_of_mem (by simp), hthird⟩,
      ⟨_, List.mem_map_of_mem (by simp), hfirst⟩, ⟨_, List.mem_map_of_mem (by simp), hsecond⟩,
      by simp⟩

theorem consistent_someRows : compiled.layout.Consistent someRows := by
  -- It is enough to compare columns under the same key, the alias of which is in the key.
  have hcolumns : ∀ x ∈ [firstRow, secondRow, thirdRow], ∀ y ∈ [firstRow, secondRow, thirdRow],
      ∀ b ∈ compiled.layout.bindings,
        compiled.layout.idIn? x b = compiled.layout.idIn? y b → compiled.layout.idIn? x b ≠ none →
        ∀ column ∈ x, ∀ column' ∈ y, column.1 = column'.1 →
          (compiled.layout.split? column.1).map Prod.fst = some b.tableAlias →
            column.2.same column'.2 = true := by
    decide +kernel
  have hplain : ∀ b ∈ compiled.layout.bindings, Identifier.isPlain b.tableAlias = true := by decide
  intro row hrow row' hrow' b hb id hid hid' field value value' hvalue hvalue'
  obtain ⟨x, hx, rfl⟩ := List.mem_map.mp hrow
  obtain ⟨y, hy, rfl⟩ := List.mem_map.mp hrow'
  have hsome : compiled.layout.idIn? x b ≠ none := Option.ne_none_iff_exists'.mpr ⟨id, hid⟩
  refine hcolumns x hx y hy b hb (hid.trans hid'.symm) hsome _ (Json.mem_of_get? hvalue) _
    (Json.mem_of_get? hvalue') rfl ?_
  exact congrArg (Option.map Prod.fst) (Text.cutAt?_columnKey field (by decide) (hplain b hb))

/-- The last of the uneven rows is the second one again. -/
def unevenResults : List Json :=
  [.object [("id", .ofNat 2), ("name", .string "B"), ("books", .array
      [.object [("id", .ofNat 5), ("sequel", .object [("id", .ofNat 7)])],
        .object [("id", .ofNat 7), ("title", .null), ("sequel", .null)]])],
    .object [("id", .ofNat 1), ("books", .array
      [.object [("id", .ofNat 5), ("sequel", .object [("id", .ofNat 7)])]])]]

theorem nest_unevenRows :
    (tree.nest compiled.layout (unevenRows.take 3)).outcome = .ok unevenResults := by
  cbv

end Sample

theorem SelectionTree.nest_rowSet_library :
    (∃ reordered, reordered.Perm [Sample.authorOne, Sample.authorTwo] ∧
      List.Forall₂ (fun value value' => value.same value' = true)
        [Sample.authorTwo, Sample.authorOne] reordered) ∧
    (Sample.tree.nest Sample.compiled.layout Sample.unevenRows).outcome
      = .ok Sample.unevenResults := by
  obtain ⟨hset, hcopy⟩ := SelectionTree.nest_rowSet Sample.catalog_accepted
    Config.isValid_default Sample.build_selection Sample.compile_tree
  refine ⟨hset _ _ _ _ Sample.sameRows_shuffledRows Sample.consistent_someRows
    Sample.nest_someRows Sample.nest_shuffledRows, ?_⟩
  have hnest := Sample.nest_unevenRows
  rw [← List.append_nil (Sample.unevenRows.take 3)] at hnest
  refine (hcopy (Sample.unevenRows.take 3) _ [] ?_ _).mpr hnest
  exact List.mem_cons_of_mem _ List.mem_cons_self

end NestedRead
