import NestedRead.Proofs.Failure
import NestedRead.Proofs.Selection.WellFormed

/-!
# Errors of building a tree

A selection on a known entity is refused for the way in which it is written, and for nothing else.
Below the root an entity is looked up only as the target of a relation, and a catalog that was
accepted has the targets of all its relations, so neither look-up fails at any level: the relations
that selections ask for are relations of the entity (`RequestedFields.Sound`).
-/

set_option autoImplicit false

namespace NestedRead

open CompileError (InSelection)
open Outcome (FailsOnly)

/-! ## Filters -/

namespace FilterExpr

mutual

theorem failsOnly_ofJson : ∀ value : Json, FailsOnly InSelection (ofJson value)
  | .object members => failsOnly_ofMembers members empty
  | .null | .bool _ | .number _ | .string _ | .array _ => by
    rw [ofJson]
    · exact .error trivial
    · intro members h
      cases h

theorem failsOnly_ofMembers : ∀ (members : List (String × Json)) (filter : FilterExpr),
    FailsOnly InSelection (ofMembers filter members)
  | [], filter => .ok filter
  | (key, value) :: rest, filter => by
    unfold ofMembers
    split
    · exact (failsOnly_groupOf key value).bind fun _ _ => failsOnly_ofMembers rest _
    · split
      · exact (failsOnly_groupOf key value).bind fun _ _ => failsOnly_ofMembers rest _
      · split
        · exact failsOnly_ofMembers rest _
        · exact .error trivial

theorem failsOnly_groupOf (key : String) : ∀ value : Json,
    FailsOnly InSelection (groupOf key value)
  | .array items => failsOnly_ofItems items
  | .null | .bool _ | .number _ | .string _ | .object _ => by
    rw [groupOf]
    · exact .error trivial
    · intro items h
      cases h

theorem failsOnly_ofItems : ∀ items : List Json, FailsOnly InSelection (ofItems items)
  | [] => .ok []
  | item :: rest => by
    rw [ofItems]
    apply (failsOnly_ofJson item).bind
    intro filter _
    exact (failsOnly_ofItems rest).bind_pure

end

theorem failsOnly_ofOptional (value : Option Json) : FailsOnly InSelection (ofOptional value) := by
  unfold ofOptional
  split
  · exact .ok none
  · exact .ok none
  · exact (failsOnly_ofJson _).map

end FilterExpr

/-! ## Arguments -/

namespace Arguments

theorem failsOnly_flag (name : String) (value : Json) :
    FailsOnly InSelection (flag name value) := by
  unfold flag
  split
  · exact .ok false
  · exact .ok _
  · exact .error trivial

theorem failsOnly_count (name : String) (value : Json) :
    FailsOnly InSelection (count name value) := by
  unfold count
  split
  · exact .ok none
  · split
    · exact .ok _
    · exact .error trivial

/-- Whatever the reader of an item says, the error is that the list is malformed. -/
theorem failsOnly_list {α : Type} (read : Json → Except Json.DecodeError α) (name : String)
    (value : Json) : FailsOnly InSelection (list read name value) := by
  unfold list
  split
  · exact .ok []
  · cases value.expectSequence >>= itemsOf read with
    | ok items => exact .ok items
    | error e => exact .error trivial

/-- Arguments fail only where one of them does: an argument that is not known is passed over. -/
theorem failsOnly_read {α : Type} {set? : α → String → Json → Option (Except CompileError α)}
    (ignored : String → Notice)
    (h : ∀ args name value next, set? args name value = some next → FailsOnly InSelection next) :
    ∀ (members : Json.Members) (args : α),
      Traced.FailsOnly InSelection (read set? ignored args members) := by
  intro members
  induction members with
  | nil => exact fun args => .pure args
  | cons member rest ih =>
    intro args
    obtain ⟨name, value⟩ := member
    rw [read]
    split
    · rename_i next hnext
      exact .ofExcept_bind (h args name value next hnext) fun args _ => ih args
    · exact .emit_bind (ih args)

end Arguments

theorem RootArgs.failsOnly_set? (args : RootArgs) (name : String) (value : Json)
    (next : Except CompileError RootArgs) (h : args.set? name value = some next) :
    FailsOnly InSelection next := by
  unfold set? at h
  split at h <;> cases h
  · exact (FilterExpr.failsOnly_ofOptional _).bind_pure
  · exact (Arguments.failsOnly_flag _ _).bind_pure
  · exact (Arguments.failsOnly_list _ _ _).bind_pure
  · exact (FilterExpr.failsOnly_ofOptional _).bind_pure
  · exact (Arguments.failsOnly_list _ _ _).bind_pure
  · exact (Arguments.failsOnly_count _ _).bind_pure
  · exact (Arguments.failsOnly_count _ _).bind_pure

theorem RelationArgs.failsOnly_set? (args : RelationArgs) (name : String) (value : Json)
    (next : Except CompileError RelationArgs) (h : args.set? name value = some next) :
    FailsOnly InSelection next := by
  unfold set? at h
  split at h <;> cases h
  · exact (FilterExpr.failsOnly_ofOptional _).bind_pure
  · split
    · exact .ok _
    · exact .ok _
    · exact .error trivial
  · exact (Arguments.failsOnly_list _ _ _).bind_pure
  · exact (Arguments.failsOnly_count _ _).bind_pure
  · exact (Arguments.failsOnly_count _ _).bind_pure

/-! ## Merging -/

namespace RequestedFields

variable {entity : Entity}

theorem failsOnly_merge (requested : RequestedRelation) (s : FieldSelection) :
    FailsOnly InSelection (requested.merge s) := by
  unfold RequestedRelation.merge
  dsimp only
  split
  · exact .ok _
  · split
    · exact .ok _
    · exact .error trivial

theorem failsOnly_addRelation (relation : Relation) (s : FieldSelection)
    (rs : List RequestedRelation) : FailsOnly InSelection (addRelation relation s rs) := by
  induction rs with
  | nil => exact .ok _
  | cons r rest ih =>
    rw [addRelation]
    split
    · exact (failsOnly_merge r s).bind_pure
    · exact ih.bind_pure

theorem failsOnly_add (fields : RequestedFields) (s : FieldSelection) :
    FailsOnly InSelection (add entity fields s) := by
  unfold add
  split
  · exact .ok _
  · split
    · exact (failsOnly_addRelation _ s _).bind_pure
    · split
      · exact .ok _
      · exact .ok _

theorem failsOnly_ofSelections (selections : List FieldSelection) :
    ∀ fields : RequestedFields, FailsOnly InSelection (ofSelections entity fields selections) := by
  induction selections with
  | nil => exact fun fields => .ok fields
  | cons s rest ih =>
    intro fields
    rw [ofSelections]
    exact (failsOnly_add fields s).bind fun next _ => ih next

end RequestedFields

/-! ## Building -/

/-- With an accepted catalog, no look-up fails below a known entity, however deep. -/
theorem SelectionNode.failsOnly_build {catalog : Catalog} (hcat : catalog.Accepted) (levels : Nat) :
    ∀ (name : String) (path : FieldPath) (selections : List FieldSelection),
      (catalog.get? name).isSome = true →
        Traced.FailsOnly InSelection (build catalog levels name path selections) := by
  induction levels with
  | zero =>
    intro name path _ _
    exact .pure (SelectionNode.mk name path [] [])
  | succ levels ih =>
    intro name path selections hknown
    obtain ⟨entity, hentity⟩ := Option.isSome_iff_exists.mp hknown
    rw [build, hentity]
    dsimp only
    apply Traced.FailsOnly.ofExcept_bind (RequestedFields.failsOnly_ofSelections selections {})
    intro requested hrequested
    have hsound := (RequestedFields.sound_empty entity).ofSelections hrequested
    apply Traced.FailsOnly.bind_pure
    apply Traced.FailsOnly.each
    intro r hr
    obtain ⟨target, htarget⟩ := hcat.target hentity (hsound.relations r hr)
    have hfound : (catalog.get? r.relation.target).isSome = true := by simp [htarget]
    rw [if_neg (by simp [htarget])]
    apply (ih r.relation.target _ r.selections hfound).bind
    intro node _
    have hargs := Arguments.failsOnly_read .relationArgumentIgnored RelationArgs.failsOnly_set?
      r.args {}
    exact hargs.bind_pure

/-- With an accepted catalog a tree is refused because the entity of the request is not known, or
for the way in which the selection is written. -/
theorem SelectionTree.failsOnly_build {catalog : Catalog} (hcat : catalog.Accepted)
    (entity : String) (selection : FieldSelection) :
    Traced.FailsOnly (fun e => (e = .unknownEntity entity ∧ catalog.get? entity = none) ∨
      e.InSelection) (build catalog entity selection) := by
  unfold build
  split
  · rename_i hunknown
    exact .fail (.inl ⟨rfl, Option.isNone_iff_eq_none.mp hunknown⟩)
  · rename_i hknown
    have hknown : (catalog.get? entity).isSome = true := by
      simpa [Option.isSome_iff_ne_none] using hknown
    apply Traced.FailsOnly.bind
    · exact (SelectionNode.failsOnly_build hcat _ entity .root _ hknown).mono fun _ => .inr
    · intro root _
      have hargs := Arguments.failsOnly_read .rootArgumentIgnored RootArgs.failsOnly_set?
        selection.args {}
      exact (hargs.mono fun _ => .inr).bind_pure

end NestedRead
