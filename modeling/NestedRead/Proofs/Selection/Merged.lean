import Mathlib
import NestedRead.Proofs.Json.Same
import NestedRead.Proofs.Selection.Merging

/-!
# Repeated selections and their merged form

`FieldSelection.merged` writes a list of selections with each name once: the first of a name that is
no relation, and of a relation all occurrences in one, with what they have below them one after the
other and merged in turn. A tree is built of that as it is of the list itself, unless two
occurrences of a relation have different arguments, be it at a level that only comes about when the
levels above it are merged (`FieldSelection.Conflicting`). Then no tree is built of the list.

Merging and building go down level by level in the same way, so both directions are inductions on
the levels, with what one level does taken from `RequestedFields.ofSelections_eq_ok_iff`.
-/

set_option autoImplicit false

namespace NestedRead

namespace FieldSelection

/-! ## Keys -/

theorem wellKeyed_of_toJsons : ∀ {selections : List FieldSelection},
    Json.ItemsWellKeyed (toJsons selections) → ∀ s ∈ selections, s.toJson.WellKeyed
  | x :: rest, h, s, hs => by
    rw [toJsons] at h
    rcases List.mem_cons.mp hs with rfl | hs
    · exact h.1
    · exact wellKeyed_of_toJsons h.2 s hs

/-- A selection without repeated keys has none in its arguments and below it. -/
theorem wellKeyed_of_toJson {s : FieldSelection} (h : s.toJson.WellKeyed) :
    (Json.object s.args).WellKeyed ∧ ∀ t ∈ s.selections, t.toJson.WellKeyed := by
  cases s
  rw [toJson] at h
  obtain ⟨-, -, hargs, hselections, -⟩ := h
  exact ⟨hargs, wellKeyed_of_toJsons hselections⟩

/-! ## The merged form -/

theorem heights_append (xs ys : List FieldSelection) :
    heights (xs ++ ys) = max (heights xs) (heights ys) := by
  induction xs with
  | nil => simp [heights]
  | cons x xs ih => rw [List.cons_append, heights, heights, ih, Nat.max_assoc]

theorem height_lt_of_mem {s : FieldSelection} {selections : List FieldSelection}
    (hs : s ∈ selections) : s.height < heights selections := by
  induction selections with
  | nil => cases hs
  | cons x xs ih =>
    rw [heights]
    rcases List.mem_cons.mp hs with rfl | hs
    · omega
    · have := ih hs
      omega

theorem heights_gathered_lt {levels : Nat} (hpos : 0 < levels) :
    ∀ {selections : List FieldSelection}, (∀ s ∈ selections, s.height < levels) →
      heights (gathered selections) < levels
  | [], _ => hpos
  | ⟨name, args, below⟩ :: rest, h => by
    obtain ⟨hs, hrest⟩ := List.forall_mem_cons.mp h
    have hrest := heights_gathered_lt hpos hrest
    rw [height] at hs
    rw [gathered, List.flatMap_cons, heights_append]
    exact Nat.max_lt.mpr ⟨hs, hrest⟩

/-- What the occurrences of a name have below them is less high than the list. -/
theorem heights_gathered_occurrences_lt {s : FieldSelection} {selections : List FieldSelection}
    (hs : s ∈ shown selections) (name : String) :
    heights (gathered (occurrences name (shown selections))) < heights selections := by
  have hpos := height_lt_of_mem (mem_shown_iff.mp hs).1
  refine heights_gathered_lt (Nat.zero_lt_of_lt hpos) fun t ht => ?_
  exact height_lt_of_mem (mem_shown_iff.mp (mem_occurrences_iff.mp ht).1).1

/-- Selections on an entity with each name once: what is no relation as it stands first, and a
relation with the first arguments that are not empty and all that its occurrences select. -/
def merged (catalog : Catalog) (name : String) (selections : List FieldSelection) :
    List FieldSelection :=
  match catalog.get? name with
  | none => selections
  | some entity =>
    (firsts (shown selections)).attach.map fun ⟨s, _⟩ =>
      match entity.relation? s.name with
      | none => s
      | some relation => {
          name := s.name
          args := firstArgs (occurrences s.name (shown selections))
          selections := merged catalog relation.target
            (gathered (occurrences s.name (shown selections))) }
termination_by heights selections
decreasing_by
  rename_i hs
  exact heights_gathered_occurrences_lt (mem_of_mem_firsts hs) s.name

/-- All occurrences of the name of a selection in one. -/
def mergedField (catalog : Catalog) (entity : Entity) (selections : List FieldSelection)
    (s : FieldSelection) : FieldSelection :=
  match entity.relation? s.name with
  | none => s
  | some relation => {
      name := s.name
      args := firstArgs (occurrences s.name selections)
      selections := merged catalog relation.target (gathered (occurrences s.name selections)) }

section level

variable {catalog : Catalog} {name : String} {entity : Entity} {selections : List FieldSelection}
  {s : FieldSelection}

theorem merged_of_get? (hentity : catalog.get? name = some entity)
    (selections : List FieldSelection) : merged catalog name selections =
      (firsts (shown selections)).map (mergedField catalog entity (shown selections)) := by
  conv_rhs => rw [← List.attach_map_subtype_val (firsts (shown selections)), List.map_map]
  rw [merged, hentity]
  rfl

theorem name_mergedField : (mergedField catalog entity selections s).name = s.name := by
  rw [mergedField]
  split <;> rfl

theorem mergedField_of_relation {relation : Relation}
    (hrelation : entity.relation? s.name = some relation) :
    mergedField catalog entity selections s = {
      name := s.name
      args := firstArgs (occurrences s.name selections)
      selections := merged catalog relation.target
        (gathered (occurrences s.name selections)) } := by
  rw [mergedField, hrelation]

theorem mergedField_mem_merged (hentity : catalog.get? name = some entity)
    (hs : s ∈ firsts (shown selections)) :
    mergedField catalog entity (shown selections) s ∈ merged catalog name selections := by
  rw [merged_of_get? hentity]
  exact List.mem_map_of_mem hs

/-- No name stands twice in the merged form. -/
theorem nodup_merged (hentity : catalog.get? name = some entity) :
    ((merged catalog name selections).map (·.name)).Nodup := by
  rw [merged_of_get? hentity, List.map_map,
    List.map_congr_left fun s _ => (name_mergedField : (_ : String) = s.name)]
  exact nodup_firsts _

/-- Nor does one that is not shown. -/
theorem shown_merged (hentity : catalog.get? name = some entity) :
    ∀ s ∈ merged catalog name selections, RequestedFields.isIntrospection s.name = false := by
  rw [merged_of_get? hentity]
  intro s hs
  obtain ⟨t, ht, rfl⟩ := List.mem_map.mp hs
  rw [name_mergedField]
  exact (mem_shown_iff.mp (mem_of_mem_firsts ht)).2

end level

/-! ## Conflicts -/

/-- Two occurrences of a relation have different arguments, here or at a level below that comes
about when all occurrences of a relation are merged. -/
inductive Conflicting (catalog : Catalog) : String → List FieldSelection → Prop where
  | here {name : String} {entity : Entity} {selections : List FieldSelection}
      {s t : FieldSelection} (hentity : catalog.get? name = some entity)
      (hs : s ∈ shown selections) (ht : t ∈ shown selections) (hname : t.name = s.name)
      (hrelation : (entity.relation? s.name).isSome = true) (hargs : s.args ≠ [])
      (hargs' : t.args ≠ [])
      (hdiffer : (Json.object s.args).same (.object t.args) = false) :
      Conflicting catalog name selections
  | deeper {name : String} {entity : Entity} {selections : List FieldSelection}
      {s : FieldSelection} {relation : Relation} (hentity : catalog.get? name = some entity)
      (hs : s ∈ shown selections) (hrelation : entity.relation? s.name = some relation)
      (h : Conflicting catalog relation.target
        (gathered (occurrences s.name (shown selections)))) :
      Conflicting catalog name selections

end FieldSelection

namespace RequestedFields

open FieldSelection

variable {catalog : Catalog} {name : String} {entity : Entity} {selections : List FieldSelection}

/-- Without a conflict nothing clashes. -/
theorem clashFree_of_not_conflicting (hentity : catalog.get? name = some entity)
    (h : ¬ Conflicting catalog name selections) : ClashFree entity (shown selections) := by
  rintro before s hbefore ⟨hrelation, hfirst, hargs, hdiffer⟩
  obtain ⟨t, ht, htargs⟩ := exists_mem_of_firstArgs hfirst
  obtain ⟨ht, hname⟩ := mem_occurrences_iff.mp ht
  rw [← htargs] at hfirst hdiffer
  exact h (.here hentity (hbefore.subset (by simp)) (hbefore.subset (by simp [ht])) hname
    hrelation hargs hfirst hdiffer)

/-- The merged form asks of a relation what the list does, with the levels below it merged. -/
theorem relationOf?_mergedField {s : FieldSelection} (hentity : catalog.get? name = some entity)
    (hs : s ∈ firsts (shown selections)) :
    relationOf? entity (merged catalog name selections)
        (mergedField catalog entity (shown selections) s) =
      (relationOf? entity (shown selections) s).map fun r =>
        { r with selections := merged catalog r.relation.target r.selections } := by
  -- Its name stands once in the merged form, so what is asked of it is what it says itself.
  rw [relationOf?, occurrences_of_nodup (nodup_merged hentity) (mergedField_mem_merged hentity hs),
    firstArgs_singleton, gathered_singleton, name_mergedField, relationOf?]
  cases hrelation : entity.relation? s.name with
  | none => rfl
  | some relation =>
    rw [mergedField_of_relation hrelation]
    rfl

/-- A level of the merged form asks for what the list does, with the levels below it merged. -/
theorem ofSelections_merged (hentity : catalog.get? name = some entity) :
    ofSelections entity {} (merged catalog name selections) = .ok
      { requestedOf entity (shown selections) with
        relations := (requestedOf entity (shown selections)).relations.map fun r =>
          { r with selections := merged catalog r.relation.target r.selections } } := by
  rw [ofSelections_eq_ok_iff_of_seen (shown_merged hentity)]
  refine ⟨clashFree_of_nodup (nodup_merged hentity), ?_⟩
  rw [requestedOf, firsts_of_nodup (nodup_merged hentity), requestedOf, RequestedFields.mk.injEq]
  constructor
  · rw [merged_of_get? hentity, List.filter_map, List.map_map]
    have hname : ∀ s, (mergedField catalog entity (shown selections) s).name = s.name :=
      fun s => name_mergedField
    simp only [Function.comp_def, hname]
  · dsimp only
    rw [List.map_filterMap,
      ← List.filterMap_congr fun s hs => relationOf?_mergedField hentity hs]
    exact (congrArg (List.filterMap _) (merged_of_get? hentity selections)).trans
      List.filterMap_map

/-- Where nothing clashes, arguments that are not empty equal the first such arguments. -/
theorem ClashFree.same_firstArgs {s : FieldSelection} (h : ClashFree entity selections)
    (hs : s ∈ selections) (hrelation : (entity.relation? s.name).isSome = true)
    (hargs : s.args ≠ []) (hkeyed : (Json.object s.args).WellKeyed) :
    (Json.object s.args).same (.object (firstArgs (occurrences s.name selections))) = true := by
  obtain ⟨before, after, rfl⟩ := List.append_of_mem hs
  rw [occurrences_append, firstArgs_append]
  split
  · -- These arguments are the first themselves.
    rw [← List.singleton_append, occurrences_append, occurrences_self, firstArgs_append,
      firstArgs_singleton, if_neg (by simpa using hargs)]
    exact Json.same_refl hkeyed
  · rename_i hfirst
    by_contra hdiffer
    refine h before s ⟨after, by simp⟩ ⟨hrelation, by simpa using hfirst, hargs, ?_⟩
    exact Bool.eq_false_iff.mpr hdiffer

end RequestedFields

/-! ## Trees -/

namespace SelectionNode

open FieldSelection RequestedFields

variable {catalog : Catalog}

/-- What is asked for below a relation is less high than the list that asks for it. -/
theorem heights_lt_of_mem_relations {entity : Entity} {selections : List FieldSelection}
    {r : RequestedRelation} (hr : r ∈ (requestedOf entity (shown selections)).relations) :
    heights r.selections < heights selections := by
  obtain ⟨s, hs, hr⟩ := List.mem_filterMap.mp hr
  obtain ⟨relation, -, rfl⟩ := Option.map_eq_some_iff.mp hr
  exact heights_gathered_occurrences_lt (mem_of_mem_firsts hs) s.name

/-- Where a node is built, nothing clashes, and a node is built of each relation. -/
theorem relations_of_build {levels : Nat} {name : String} {path : FieldPath} {entity : Entity}
    {selections : List FieldSelection} {node : SelectionNode}
    (hentity : catalog.get? name = some entity)
    (h : (build catalog (levels + 1) name path selections).outcome = .ok node) :
    ClashFree entity (shown selections) ∧
      ∀ r ∈ (requestedOf entity (shown selections)).relations, ∃ child,
        (build catalog levels r.relation.target (path.child r.field) r.selections).outcome
          = .ok child := by
  rw [build, hentity] at h
  obtain ⟨requested, hrequested, h⟩ := Traced.outcome_bind_eq_ok_iff.mp h
  obtain ⟨relations, hrelations, -⟩ := Traced.outcome_bind_eq_ok_iff.mp h
  rw [Traced.outcome_ofExcept, ofSelections_eq_ok_iff] at hrequested
  obtain ⟨hfree, rfl⟩ := hrequested
  refine ⟨hfree, fun r hr => ?_⟩
  obtain ⟨built, hbuilt⟩ := Traced.exists_of_outcome_each hrelations r hr
  split at hbuilt
  · cases hbuilt
  · obtain ⟨child, hchild, -⟩ := Traced.outcome_bind_eq_ok_iff.mp hbuilt
    exact ⟨child, hchild⟩

/-- A bound above the height of the selections is never used up: with any of them the same node is
built, with the same notices, or the same error found. -/
theorem build_levels : ∀ {levels levels' : Nat} {name : String} {path : FieldPath}
    {selections : List FieldSelection}, heights selections < levels → heights selections < levels' →
      build catalog levels name path selections = build catalog levels' name path selections
  | levels + 1, levels' + 1, name, path, selections, hlevels, hlevels' => by
    rw [build, build]
    cases catalog.get? name with
    | none => rfl
    | some entity =>
      dsimp only
      cases hrequested : ofSelections entity {} selections with
      | error e => rfl
      | ok requested =>
        obtain ⟨-, rfl⟩ := ofSelections_eq_ok_iff.mp hrequested
        rw [Traced.ofExcept_ok_bind, Traced.ofExcept_ok_bind]
        refine congrArg (fun relations => relations >>= _) ?_
        refine (Traced.each_map (f := id) fun r hr => ?_).trans (congrArg _ (List.map_id _))
        have hlow := heights_lt_of_mem_relations hr
        rw [id, build_levels (Nat.lt_of_lt_of_le hlow (Nat.lt_succ_iff.mp hlevels))
          (Nat.lt_of_lt_of_le hlow (Nat.lt_succ_iff.mp hlevels'))]

/-- Without conflicts the merged form is built into the same node, with the same notices, or fails
with the same error. -/
theorem build_merged : ∀ {levels levels' : Nat} {name : String} {path : FieldPath}
    {selections : List FieldSelection}, heights selections < levels →
      heights (merged catalog name selections) < levels' →
      ¬ Conflicting catalog name selections →
      build catalog levels name path selections
        = build catalog levels' name path (merged catalog name selections)
  | levels + 1, levels' + 1, name, path, selections, hlevels, hlevels', hconflict => by
    rw [build, build]
    cases hentity : catalog.get? name with
    | none => rfl
    | some entity =>
      have hfree := clashFree_of_not_conflicting hentity hconflict
      dsimp only
      -- Both sides ask for the same, but for what is selected below each relation.
      rw [ofSelections_eq_ok_iff.mpr ⟨hfree, rfl⟩, ofSelections_merged hentity,
        Traced.ofExcept_ok_bind, Traced.ofExcept_ok_bind]
      refine congrArg (fun relations => relations >>= _) (Traced.each_map fun r hr => ?_)
      obtain ⟨s, hs, hr⟩ := List.mem_filterMap.mp hr
      obtain ⟨relation, hrelation, rfl⟩ := Option.map_eq_some_iff.mp hr
      have hshown := mem_of_mem_firsts hs
      have hlow := heights_gathered_occurrences_lt hshown s.name
      have hlow' : heights (merged catalog relation.target
          (gathered (occurrences s.name (shown selections)))) < levels' := by
        have hmem := height_lt_of_mem (mergedField_mem_merged hentity hs)
        rw [mergedField_of_relation hrelation, height] at hmem
        exact Nat.lt_of_lt_of_le hmem (Nat.lt_succ_iff.mp hlevels')
      have hbelow : ¬ Conflicting catalog relation.target
          (gathered (occurrences s.name (shown selections))) :=
        fun h => hconflict (.deeper hentity hshown hrelation h)
      dsimp only
      rw [build_merged (Nat.lt_of_lt_of_le hlow (Nat.lt_succ_iff.mp hlevels)) hlow' hbelow]

/-- With a conflict no node is built. -/
theorem not_built_of_conflicting {name : String} {selections : List FieldSelection}
    (h : Conflicting catalog name selections) :
    ∀ {levels : Nat} {path : FieldPath} {node : SelectionNode}, heights selections < levels →
      (∀ s ∈ selections, s.toJson.WellKeyed) →
      (build catalog levels name path selections).outcome ≠ .ok node := by
  induction h with
  | @here name entity selections s t hentity hs ht hname hrelation hargs hargs' hdiffer =>
    rintro (_ | levels) path node hlevels hkeyed hbuild
    · exact absurd hlevels (Nat.not_lt_zero _)
    · obtain ⟨hfree, -⟩ := relations_of_build hentity hbuild
      have hkeyedS := (wellKeyed_of_toJson (hkeyed s (mem_shown_iff.mp hs).1)).1
      have hkeyedT := (wellKeyed_of_toJson (hkeyed t (mem_shown_iff.mp ht).1)).1
      have hfirstS := hfree.same_firstArgs hs hrelation hargs hkeyedS
      have hfirstT := hfree.same_firstArgs ht (hname ▸ hrelation) hargs' hkeyedT
      rw [hname] at hfirstT
      rw [Json.same_trans hfirstS (Json.same_symm hkeyedT hfirstT)] at hdiffer
      cases hdiffer
  | @deeper name entity selections s relation hentity hs hrelation _ ih =>
    rintro (_ | levels) path node hlevels hkeyed hbuild
    · exact absurd hlevels (Nat.not_lt_zero _)
    · obtain ⟨-, hbuilt⟩ := relations_of_build hentity hbuild
      obtain ⟨child, hchild⟩ := hbuilt _
        (mem_relations_requestedOf hrelation (List.mem_map_of_mem (f := (·.name)) hs))
      have hlow := heights_gathered_occurrences_lt hs s.name
      refine ih (Nat.lt_of_lt_of_le hlow (Nat.lt_succ_iff.mp hlevels)) (fun t ht => ?_) hchild
      obtain ⟨u, hu, ht⟩ := List.mem_flatMap.mp ht
      have hu := (mem_shown_iff.mp (mem_occurrences_iff.mp hu).1).1
      exact (wellKeyed_of_toJson (hkeyed u hu)).2 t ht

end SelectionNode

/-- **Repeated selections mean the same as their merged form.** A tree is built of selections as it
is of their merged form, or fails in the same way, if no two occurrences of a relation have
different arguments at any level, and is not built at all if some have. -/
theorem SelectionTree.build_repeated (catalog : Catalog) (entity name : String)
    (args : Json.Members) (selections : List FieldSelection) :
    (¬ FieldSelection.Conflicting catalog entity selections →
      build catalog entity ⟨name, args, selections⟩
        = build catalog entity ⟨name, args, FieldSelection.merged catalog entity selections⟩) ∧
    ((∀ s ∈ selections, s.toJson.WellKeyed) →
      FieldSelection.Conflicting catalog entity selections →
        ∃ error, (build catalog entity ⟨name, args, selections⟩).outcome = .error error) := by
  constructor
  · intro hconflict
    rw [build, build]
    split
    · rfl
    · rw [SelectionNode.build_merged (Nat.lt_succ_self _) (Nat.lt_succ_self _) hconflict]
  · intro hkeyed hconflict
    cases hbuild : (build catalog entity ⟨name, args, selections⟩).outcome with
    | error e => exact ⟨e, rfl⟩
    | ok tree =>
      rw [build] at hbuild
      split at hbuild
      · cases hbuild
      · obtain ⟨root, hroot, -⟩ := Traced.outcome_bind_eq_ok_iff.mp hbuild
        exact absurd hroot
          (SelectionNode.not_built_of_conflicting hconflict (Nat.lt_succ_self _) hkeyed)

/-! ## Selections of the library -/

namespace Sample

/-- Books three times, the arguments of the sequel only in the second of them. -/
def repeatedSelections : List FieldSelection :=
  [.leaf "__typename", ⟨"books", [], [.leaf "title", .leaf "sequel"]⟩, .leaf "name",
    ⟨"books", [("joinType", .string "left")],
      [⟨"sequel", [("joinType", .string "inner")], [.leaf "title"]⟩, .leaf "title"]⟩,
    .leaf "name", ⟨"books", [], [⟨"sequel", [], [.leaf "__typename", .leaf "title"]⟩]⟩]

def mergedSelections : List FieldSelection :=
  [⟨"books", [("joinType", .string "left")],
      [.leaf "title", ⟨"sequel", [("joinType", .string "inner")], [.leaf "title"]⟩]⟩,
    .leaf "name"]

theorem merged_repeatedSelections :
    FieldSelection.merged catalog "Author" repeatedSelections = mergedSelections := by
  cbv

/-- Two ways to join the sequel, under two occurrences of the books. -/
def conflictingSelections : List FieldSelection :=
  [⟨"books", [], [⟨"sequel", [("joinType", .string "inner")], [.leaf "title"]⟩]⟩,
    ⟨"books", [], [⟨"sequel", [("joinType", .string "left")], [.leaf "title"]⟩]⟩]

def repeatedTree : SelectionTree where
  root := .mk "Author" .root ["name"]
    [.mk "books" { joinType := some "left" } (.mk "Book" ⟨["books"]⟩ ["title"]
      [.mk "sequel" { joinType := some "inner" }
        (.mk "Book" ⟨["books", "sequel"]⟩ ["title"] [])])]
  args := {}

theorem build_repeatedSelections :
    (SelectionTree.build catalog "Author" ⟨"authors", [], repeatedSelections⟩).outcome
      = .ok repeatedTree :=
  rfl

theorem wellKeyed_repeatedSelections : ∀ s ∈ repeatedSelections, s.toJson.WellKeyed := by
  simp [repeatedSelections, FieldSelection.leaf, FieldSelection.toJson, FieldSelection.toJsons,
    Json.WellKeyed, Json.ItemsWellKeyed, Json.MembersWellKeyed]

theorem wellKeyed_conflictingSelections : ∀ s ∈ conflictingSelections, s.toJson.WellKeyed := by
  simp [conflictingSelections, FieldSelection.leaf, FieldSelection.toJson,
    FieldSelection.toJsons, Json.WellKeyed, Json.ItemsWellKeyed, Json.MembersWellKeyed]

/-- The conflict comes about when the books are merged. -/
theorem conflicting_conflictingSelections :
    FieldSelection.Conflicting catalog "Author" conflictingSelections := by
  have hauthor : catalog.get? "Author" = some author := rfl
  have hbook : catalog.get? "Book" = some book := rfl
  have hbooks : author.relation? "books" = some ⟨"Book", "id", "author_id", none, .many⟩ := by
    decide
  refine .deeper hauthor (s := ⟨"books", [], _⟩) List.mem_cons_self hbooks ?_
  exact .here hbook (s := ⟨"sequel", [("joinType", .string "inner")], _⟩)
    (t := ⟨"sequel", [("joinType", .string "left")], _⟩) List.mem_cons_self
    (List.mem_cons_of_mem _ List.mem_cons_self) rfl (by decide) (by simp) (by simp) (by decide)

end Sample

theorem SelectionTree.build_repeated_library :
    (SelectionTree.build Sample.catalog "Author"
      ⟨"authors", [], Sample.mergedSelections⟩).outcome = .ok Sample.repeatedTree ∧
    ∃ error, (SelectionTree.build Sample.catalog "Author"
      ⟨"authors", [], Sample.conflictingSelections⟩).outcome = .error error := by
  obtain ⟨hsame, hrefused⟩ := SelectionTree.build_repeated Sample.catalog "Author" "authors" []
    Sample.repeatedSelections
  have hnone : ¬ FieldSelection.Conflicting Sample.catalog "Author" Sample.repeatedSelections := by
    intro hconflict
    obtain ⟨error, herror⟩ := hrefused Sample.wellKeyed_repeatedSelections hconflict
    rw [Sample.build_repeatedSelections] at herror
    cases herror
  constructor
  · rw [← Sample.merged_repeatedSelections, ← hsame hnone]
    exact Sample.build_repeatedSelections
  · exact (SelectionTree.build_repeated Sample.catalog "Author" "authors" []
      Sample.conflictingSelections).2 Sample.wellKeyed_conflictingSelections
      Sample.conflicting_conflictingSelections

end NestedRead
