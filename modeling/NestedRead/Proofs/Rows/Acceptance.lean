import Mathlib
import NestedRead.Proofs.Query.Planned
import NestedRead.Proofs.Rows.Filled
import NestedRead.Proofs.Rows.Hydration
import NestedRead.Proofs.Selection.Edges

/-!
# Rows are accepted one by one

Taking a row into the index changes the index, but whether the row is taken in at all depends on
nothing that came before: neither the index nor the ids that are known so far decide about an error,
and the position of the row is only repeated in it (`RowIndex.verdict_addRow`). So a list of rows is
accepted exactly when each of its rows is accepted alone, and otherwise its error is the one that
the first bad row has alone, told of the place where the row stands.

What fails for every row, a layout that lacks a path of the tree, fails for each row alone as well;
and once the index is there, nothing is left that can fail.
-/

set_option autoImplicit false

namespace NestedRead

namespace RowError

/-- The same error, met in the row at another position. -/
def inRow (position : Nat) : RowError → RowError
  | .notObject _ => .notObject position
  | .missingUniqueColumn tableAlias column _ => .missingUniqueColumn tableAlias column position
  | .unaliasedColumn column separator => .unaliasedColumn column separator
  | .unknownAlias tableAlias column => .unknownAlias tableAlias column
  | .invalidId tableAlias value => .invalidId tableAlias value
  | .missingBinding path => .missingBinding path

@[simp] theorem inRow_inRow (position earlier : Nat) (error : RowError) :
    (error.inRow earlier).inRow position = error.inRow position := by
  cases error <;> rfl

/-- What becomes of rows that are judged one after the other, the first of them standing at a
position. -/
def inOrder (judge : Json → Except RowError Unit) (position : Nat) :
    List Json → Except RowError Unit
  | [] => .ok ()
  | row :: rest => do
    (judge row).mapError (inRow position)
    inOrder judge (position + 1) rest

theorem inOrder_cons_of_ok {judge : Json → Except RowError Unit} {row : Json}
    (h : judge row = .ok ()) (position : Nat) (rest : List Json) :
    inOrder judge position (row :: rest) = inOrder judge (position + 1) rest := by
  rw [inOrder, h]
  rfl

theorem inOrder_cons_of_error {judge : Json → Except RowError Unit} {row : Json}
    {error : RowError} (h : judge row = .error error) (position : Nat) (rest : List Json) :
    inOrder judge position (row :: rest) = .error (error.inRow position) := by
  rw [inOrder, h]
  rfl

/-- Rows that are judged in order pass exactly when all of them do. -/
theorem inOrder_eq_ok_iff {judge : Json → Except RowError Unit} :
    ∀ {rows : List Json} {position : Nat},
      inOrder judge position rows = .ok () ↔ ∀ row ∈ rows, judge row = .ok ()
  | [], _ => by simp [inOrder]
  | row :: rest, position => by
    cases hrow : judge row with
    | ok passed => simp [inOrder_cons_of_ok hrow, inOrder_eq_ok_iff, hrow]
    | error error => simp [inOrder_cons_of_error hrow, hrow]

/-- Otherwise the first row that does not pass decides, told of its position. -/
theorem inOrder_eq_error_iff {judge : Json → Except RowError Unit} {error : RowError} :
    ∀ {rows : List Json} {position : Nat}, inOrder judge position rows = .error error ↔
      ∃ before row after alone, rows = before ++ row :: after ∧
        (∀ earlier ∈ before, judge earlier = .ok ()) ∧ judge row = .error alone ∧
        error = alone.inRow (position + before.length)
  | [], _ => by simp [inOrder]
  | row :: rest, position => by
    cases hrow : judge row with
    | error alone =>
      rw [inOrder_cons_of_error hrow, Except.error.injEq]
      constructor
      · rintro rfl
        exact ⟨[], row, rest, alone, rfl, nofun, hrow, rfl⟩
      · rintro ⟨before, found, after, other, hrows, hbefore, hfound, rfl⟩
        cases before with
        | nil =>
          cases hrows
          cases hrow.symm.trans hfound
          rfl
        | cons first before =>
          cases hrows
          cases hrow.symm.trans (hbefore row List.mem_cons_self)
    | ok passed =>
      rw [inOrder_cons_of_ok hrow, inOrder_eq_error_iff]
      constructor
      · rintro ⟨before, found, after, alone, rfl, hbefore, hfound, rfl⟩
        refine ⟨row :: before, found, after, alone, rfl,
          List.forall_mem_cons.mpr ⟨hrow, hbefore⟩, hfound, ?_⟩
        rw [List.length_cons, Nat.add_right_comm, Nat.add_assoc]
      · rintro ⟨before, found, after, alone, hrows, hbefore, hfound, rfl⟩
        cases before with
        | nil =>
          cases hrows
          cases hrow.symm.trans hfound
        | cons first before =>
          cases hrows
          refine ⟨before, found, after, alone, rfl, (List.forall_mem_cons.mp hbefore).2, hfound, ?_⟩
          rw [List.length_cons, Nat.add_right_comm, Nat.add_assoc]

end RowError

/-! ## One row -/

namespace RowIndex

variable {layout : Layout}

/-- No error about a key tells of a position. -/
theorem columns_outcome (position : Nat) : ∀ row : Json.Members,
    (columns layout row).outcome = (columns layout row).outcome.mapError (RowError.inRow position)
  | [] => rfl
  | (key, value) :: rest => by
    rw [columns]
    split
    · rfl
    · split
      · rfl
      · have ih := columns_outcome position rest
        rw [Traced.bind_eq, Traced.bind]
        cases h : (columns layout rest).outcome with
        | ok cs => rfl
        | error e =>
          rw [h] at ih
          exact ih

/-- The position of a row comes into the error about a missing id and nowhere else. -/
theorem readId_outcome (row : Json.Members) (position : Nat) (b : Binding) (required : Bool) :
    (readId layout row position b required).outcome
      = (readId layout row 0 b required).outcome.mapError (RowError.inRow position) := by
  unfold readId
  dsimp only
  split
  · cases required <;> rfl
  · split <;> rfl

/-- Whether ids can be read does not depend on what is known already. -/
theorem verdict_readBindings (rootAlias : String) (row : Json.Members) (position : Nat)
    (columns : List Column) : ∀ (bindings : List Binding) (index index' : RowIndex)
      (ids ids' : List (String × EntityId)),
      (readBindings layout rootAlias row position columns index ids bindings).verdict
        = (readBindings layout rootAlias row 0 columns index' ids' bindings).verdict.mapError
          (RowError.inRow position)
  | [], _, _, _, _ => rfl
  | b :: rest, index, index', ids, ids' => by
    rw [readBindings, readBindings]
    refine Traced.verdict_bind_mapError (readId_outcome row position b _) fun id => ?_
    cases id with
    | none => exact verdict_readBindings rootAlias row position columns rest ..
    | some id => exact verdict_readBindings rootAlias row position columns rest ..

/-- Whether a row is taken in depends on the row alone. -/
theorem verdict_addRow (rootAlias : String) (edges : List Edge) (index : RowIndex)
    (position : Nat) (row : Json) :
    (addRow layout rootAlias edges index position row).verdict
      = (addRow layout rootAlias edges {} 0 row).verdict.mapError (RowError.inRow position) := by
  cases row with
  | object members =>
    rw [addRow, addRow]
    refine Traced.verdict_bind_mapError (columns_outcome position members) fun cs => ?_
    -- Linking comes after the ids and always succeeds.
    rw [Traced.verdict_bind_of_forall fun _ => rfl, Traced.verdict_bind_of_forall fun _ => rfl]
    exact verdict_readBindings rootAlias members position cs layout.bindings ..
  | null | bool | number | string | array => rfl

/-! ## All rows -/

/-- Rows are taken in one after the other, each as it is judged alone. -/
theorem verdict_addRows (rootAlias : String) (edges : List Edge) : ∀ (rows : List Json)
    (index : RowIndex) (position : Nat),
      (addRows layout rootAlias edges index position rows).verdict = RowError.inOrder
        (fun row => (addRow layout rootAlias edges {} 0 row).verdict) position rows
  | [], _, _ => rfl
  | row :: rest, index, position => by
    have hrow : (addRow layout rootAlias edges index position row).verdict = _ :=
      verdict_addRow rootAlias edges index position row
    rw [addRows, RowError.inOrder, ← hrow]
    cases hadd : (addRow layout rootAlias edges index position row).outcome with
    | error e =>
      rw [Traced.verdict_bind_of_error hadd, Traced.verdict_eq_error_iff.mpr hadd]
      rfl
    | ok next =>
      rw [Traced.verdict_bind_of_ok hadd, Traced.verdict_eq_ok_iff.mpr ⟨next, hadd⟩]
      exact verdict_addRows rootAlias edges rest next (position + 1)

theorem exists_missing_of_bindingAt {path : FieldPath} {error : RowError}
    (h : bindingAt layout path = .error error) : ∃ text, error = .missingBinding text := by
  unfold bindingAt at h
  split at h
  · cases h
  · cases h
    exact ⟨_, rfl⟩

theorem exists_missing_of_edges : ∀ {relations : List (FieldPath × FieldPath)} {error : RowError},
    RowIndex.edges layout relations = .error error → ∃ text, error = .missingBinding text
  | [], _, h => nomatch h
  | (parent, child) :: rest, error, h => by
    rw [RowIndex.edges] at h
    rcases Outcome.bind_eq_error_iff.mp h with h | ⟨p, -, h⟩
    · exact exists_missing_of_bindingAt h
    rcases Outcome.bind_eq_error_iff.mp h with h | ⟨c, -, h⟩
    · exact exists_missing_of_bindingAt h
    rcases Outcome.bind_eq_error_iff.mp h with h | ⟨more, -, h⟩
    · exact exists_missing_of_edges h
    · cases h

/-- Either the layout lacks a path, whatever the rows, or each row is judged alone. -/
theorem verdict_ofRows (layout : Layout) (relations : List (FieldPath × FieldPath)) :
    (∃ path, ∀ rows, (ofRows layout relations rows).verdict = .error (.missingBinding path)) ∨
      ∃ judge : Json → Except RowError Unit,
        ∀ rows, (ofRows layout relations rows).verdict = RowError.inOrder judge 0 rows := by
  unfold ofRows
  cases layout.root? with
  | none => exact Or.inl ⟨_, fun _ => rfl⟩
  | some root =>
    dsimp only
    cases hedges : RowIndex.edges layout relations with
    | error e =>
      obtain ⟨path, rfl⟩ := exists_missing_of_edges hedges
      exact Or.inl ⟨path, fun _ => Traced.verdict_bind_of_error rfl⟩
    | ok edges =>
      refine Or.inr ⟨fun row => (addRow layout root.tableAlias edges {} 0 row).verdict,
        fun rows => ?_⟩
      rw [Traced.verdict_bind_of_ok (Traced.outcome_ofExcept _)]
      exact verdict_addRows root.tableAlias edges rows {} 0

/-! ## Nesting cannot fail -/

theorem byPath?_of_bindingAt {path : FieldPath} {b : Binding}
    (h : bindingAt layout path = .ok b) : layout.byPath? path = some b := by
  unfold bindingAt at h
  split at h
  · rename_i found hfound
    cases h
    exact hfound
  · cases h

/-- Where the edges between paths are known, all these paths are bound. -/
theorem isSome_byPath?_of_edges : ∀ {relations : List (FieldPath × FieldPath)} {edges : List Edge},
    RowIndex.edges layout relations = .ok edges →
      ∀ relation ∈ relations, (layout.byPath? relation.2).isSome = true
  | [], _, _, _, hmem => nomatch hmem
  | (parent, child) :: rest, _, h, relation, hmem => by
    rw [RowIndex.edges] at h
    obtain ⟨_, -, h⟩ := Outcome.bind_eq_ok_iff.mp h
    obtain ⟨b, hb, h⟩ := Outcome.bind_eq_ok_iff.mp h
    obtain ⟨more, hmore, -⟩ := Outcome.bind_eq_ok_iff.mp h
    rcases List.mem_cons.mp hmem with rfl | hmem
    · rw [byPath?_of_bindingAt hb]
      rfl
    · exact isSome_byPath?_of_edges hmore relation hmem

end RowIndex

namespace SelectionNode

/-- Below a node there is nothing but what its edges lead to. -/
theorem exists_edge_of_mem_nodes {node n : SelectionNode} (hn : n ∈ node.nodes) :
    n = node ∨ ∃ edge ∈ node.edges, edge.2 = n.path := by
  rw [nodes_eq, List.mem_cons] at hn
  refine hn.imp_right fun hn => ?_
  obtain ⟨d, hd, rfl⟩ := List.mem_map.mp hn
  rw [edges_eq]
  exact ⟨_, List.mem_map_of_mem hd, rfl⟩

end SelectionNode

namespace SelectionTree

variable {tree : SelectionTree} {layout : Layout}

/-- An index that is there is nested, whatever the layout. -/
theorem exists_nest_of_index {rows : List Json} {index : RowIndex} (hpath : tree.root.path = .root)
    (h : (RowIndex.ofRows layout tree.edges rows).outcome = .ok index) (id : EntityId) :
    ∃ value, (index.nest layout id tree.root).outcome = .ok value := by
  unfold RowIndex.ofRows at h
  split at h
  · cases h
  rename_i root hroot
  obtain ⟨edges, hedges, -⟩ := Traced.outcome_bind_eq_ok_iff.mp h
  refine RowIndex.exists_nest index (fun n hn => ?_) id
  rcases SelectionNode.exists_edge_of_mem_nodes hn with rfl | ⟨edge, hedge, hn⟩
  · -- The root is bound because the scan found it before it started.
    rw [hpath, Layout.byPath?, List.find?_isSome]
    refine ⟨root, List.mem_of_find?_eq_some hroot, ?_⟩
    have hempty := List.find?_some hroot
    rw [FieldPath.isRoot, List.isEmpty_iff] at hempty
    rw [beq_iff_eq, FieldPath.root, ← hempty]
  · rw [← hn]
    exact RowIndex.isSome_byPath?_of_edges hedges edge hedge

theorem verdict_nest_of_index {rows : List Json} {index : RowIndex}
    (hpath : tree.root.path = .root)
    (h : (RowIndex.ofRows layout tree.edges rows).outcome = .ok index) :
    (tree.nest layout rows).verdict = .ok () := by
  unfold nest
  split
  · rfl
  obtain ⟨roots, hroots⟩ := Traced.exists_outcome_each fun id (_ : id ∈ index.rootIds) =>
    exists_nest_of_index hpath h id
  rw [Traced.verdict_bind_of_ok h, Traced.verdict_bind_of_ok hroots]
  rfl

theorem verdict_nest (hpath : tree.root.path = .root) {rows : List Json} (hrows : rows ≠ []) :
    (tree.nest layout rows).verdict = (RowIndex.ofRows layout tree.edges rows).verdict := by
  cases h : (RowIndex.ofRows layout tree.edges rows).outcome with
  | ok index =>
    rw [verdict_nest_of_index hpath h, Traced.verdict_eq_ok_iff.mpr ⟨index, h⟩]
  | error e =>
    rw [nest, if_neg (by simpa using hrows), Traced.verdict_bind_of_error h,
      Traced.verdict_eq_error_iff.mpr h]

/-- Whatever the layout, one judgement of single rows decides about all lists of them. -/
theorem exists_judge (hpath : tree.root.path = .root) (layout : Layout) :
    ∃ judge : Json → Except RowError Unit,
      ∀ rows, (tree.nest layout rows).verdict = RowError.inOrder judge 0 rows := by
  rcases RowIndex.verdict_ofRows layout tree.edges with ⟨path, hmissing⟩ | ⟨judge, hjudge⟩
  · refine ⟨fun _ => .error (.missingBinding path), fun rows => ?_⟩
    cases rows with
    | nil => rfl
    | cons row rest => exact (verdict_nest hpath (List.cons_ne_nil _ _)).trans (hmissing _)
  · refine ⟨judge, fun rows => ?_⟩
    cases rows with
    | nil => rfl
    | cons row rest => exact (verdict_nest hpath (List.cons_ne_nil _ _)).trans (hjudge _)

/-- **Rows are accepted one by one, and the first bad one decides.** Under any layout a list of rows
is read exactly when each row alone is; otherwise the error is the one that the first unreadable row
has alone, told of its position in the list. An index that is there can always be nested. -/
theorem nest_local {catalog : Catalog} {entity : String} {selection : FieldSelection}
    (htree : (build catalog entity selection).outcome = .ok tree) (layout : Layout)
    (rows : List Json) :
    ((∃ results, (tree.nest layout rows).outcome = .ok results) ↔
      ∀ row ∈ rows, ∃ results, (tree.nest layout [row]).outcome = .ok results) ∧
    (∀ error, (tree.nest layout rows).outcome = .error error ↔
      ∃ before row after alone, rows = before ++ row :: after ∧
        (∀ earlier ∈ before, ∃ results, (tree.nest layout [earlier]).outcome = .ok results) ∧
        (tree.nest layout [row]).outcome = .error alone ∧
        error = alone.inRow before.length) ∧
    ∀ index, (RowIndex.ofRows layout tree.edges rows).outcome = .ok index →
      ∀ id, ∃ value, (index.nest layout id tree.root).outcome = .ok value := by
  obtain ⟨-, -, hpath⟩ := build_wellFormed htree
  obtain ⟨judge, hjudge⟩ := exists_judge hpath layout
  have hsingle : ∀ row, (tree.nest layout [row]).verdict
      = (judge row).mapError (RowError.inRow 0) := by
    intro row
    rw [hjudge]
    cases hrow : judge row with
    | ok passed => exact RowError.inOrder_cons_of_ok hrow 0 []
    | error error => exact RowError.inOrder_cons_of_error hrow 0 []
  have hpasses : ∀ row, (∃ results, (tree.nest layout [row]).outcome = .ok results) ↔
      judge row = .ok () := by
    intro row
    rw [← Traced.verdict_eq_ok_iff, hsingle]
    cases judge row <;> simp [Except.mapError]
  refine ⟨?_, fun error => ?_, fun index hindex => exists_nest_of_index hpath hindex⟩
  · rw [← Traced.verdict_eq_ok_iff, hjudge, RowError.inOrder_eq_ok_iff]
    simp only [hpasses]
  · rw [← Traced.verdict_eq_error_iff, hjudge, RowError.inOrder_eq_error_iff]
    simp only [hpasses, Nat.zero_add, ← Traced.verdict_eq_error_iff, hsingle]
    -- The error that a row has alone stands in row 0; moving it on from there loses nothing.
    refine exists_congr fun before => exists_congr fun row => exists_congr fun after => ?_
    constructor
    · rintro ⟨alone, hrows, hbefore, hrow, rfl⟩
      exact ⟨alone.inRow 0, hrows, hbefore, by rw [hrow]; rfl, by rw [RowError.inRow_inRow]⟩
    · rintro ⟨alone, hrows, hbefore, hrow, rfl⟩
      cases hfound : judge row with
      | ok passed =>
        rw [hfound] at hrow
        cases hrow
      | error error =>
        rw [hfound] at hrow
        cases hrow
        exact ⟨error, hrows, hbefore, rfl, by rw [RowError.inRow_inRow]⟩

end SelectionTree

/-! ## Rows of the library -/

namespace Sample

/-- An author without books, a book that says nothing of its id, and no row at all. -/
def spoiltRows : List Json :=
  [.object [("base___id", .ofNat 1), ("Book___id", .null)],
    .object [("base___id", .ofNat 1), ("Book___title", .string "T")],
    .string "row"]

end Sample

/-- The second of three rows is the first that cannot be read. -/
theorem SelectionTree.nest_local_library :
    (SelectionTree.build Sample.catalog "Author" Sample.selection).outcome = .ok Sample.tree ∧
    (Sample.tree.nest Sample.compiled.layout Sample.spoiltRows).outcome
      = .error (.missingUniqueColumn "Book" "Book___id" 1) := by
  have hfirst : (Sample.tree.nest Sample.compiled.layout
      [.object [("base___id", .ofNat 1), ("Book___id", .null)]]).outcome
        = .ok [.object [("id", .ofNat 1), ("books", .array [])]] := by cbv
  have hsecond : (Sample.tree.nest Sample.compiled.layout
      [.object [("base___id", .ofNat 1), ("Book___title", .string "T")]]).outcome
        = .error (.missingUniqueColumn "Book" "Book___id" 0) := rfl
  obtain ⟨-, herror, -⟩ := SelectionTree.nest_local Sample.build_selection Sample.compiled.layout
    Sample.spoiltRows
  refine ⟨Sample.build_selection, (herror _).mpr ⟨[_], _, [_], _, rfl, ?_, hsecond, rfl⟩⟩
  rintro earlier hearlier
  rw [List.mem_singleton] at hearlier
  subst hearlier
  exact ⟨_, hfirst⟩

end NestedRead
