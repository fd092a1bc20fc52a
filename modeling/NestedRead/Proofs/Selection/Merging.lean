import Mathlib.Data.List.Induction
import NestedRead.Proofs.Selection.WellFormed

/-!
# What a list of selections asks for

Selections are merged one after the other into what has been requested so far. What comes of it can
be told of the list as a whole (`RequestedFields.requestedOf`): the names that stand in it, each
where it stands first, and for a relation the first arguments that are not empty and everything that
its occurrences have below them. One more selection is merged into that unless it clashes with what
stands before it (`add_requestedOf`), and so are all of a list in which no selection clashes
(`ofSelections_eq_ok_iff`).
-/

set_option autoImplicit false

namespace NestedRead

namespace FieldSelection

/-- The selections that reach a tree. -/
def shown (selections : List FieldSelection) : List FieldSelection :=
  selections.filter fun s => !RequestedFields.isIntrospection s.name

/-- The first selection under each name. -/
def firsts : List FieldSelection → List FieldSelection
  | [] => []
  | s :: rest => s :: (firsts rest).filter fun t => t.name ≠ s.name

/-- All selections under a name. -/
def occurrences (name : String) (selections : List FieldSelection) : List FieldSelection :=
  selections.filter fun s => s.name = name

/-- The first arguments that are not empty, or else none. -/
def firstArgs (selections : List FieldSelection) : Json.Members :=
  ((selections.map (·.args)).find? fun args => !args.isEmpty).getD []

/-- What selections have below them, in order. -/
def gathered (selections : List FieldSelection) : List FieldSelection :=
  selections.flatMap (·.selections)

/-! ## Lists of selections -/

theorem mem_shown_iff {s : FieldSelection} {selections : List FieldSelection} :
    s ∈ shown selections ↔ s ∈ selections ∧ RequestedFields.isIntrospection s.name = false := by
  simp [shown]

theorem mem_occurrences_iff {s : FieldSelection} {name : String}
    {selections : List FieldSelection} :
    s ∈ occurrences name selections ↔ s ∈ selections ∧ s.name = name := by
  simp [occurrences]

theorem occurrences_append (name : String) (xs ys : List FieldSelection) :
    occurrences name (xs ++ ys) = occurrences name xs ++ occurrences name ys :=
  List.filter_append ..

theorem occurrences_self (s : FieldSelection) : occurrences s.name [s] = [s] := by
  simp [occurrences]

theorem occurrences_eq_nil {name : String} {selections : List FieldSelection}
    (h : name ∉ selections.map (·.name)) : occurrences name selections = [] := by
  rw [occurrences, List.filter_eq_nil_iff]
  intro s hs heq
  exact h (List.mem_map.mpr ⟨s, hs, of_decide_eq_true heq⟩)

theorem gathered_append (xs ys : List FieldSelection) :
    gathered (xs ++ ys) = gathered xs ++ gathered ys :=
  List.flatMap_append ..

theorem gathered_singleton (s : FieldSelection) : gathered [s] = s.selections := by
  simp [gathered]

theorem firstArgs_singleton (s : FieldSelection) : firstArgs [s] = s.args := by
  rw [firstArgs, List.map_singleton, List.find?_singleton]
  cases s.args <;> rfl

/-- Later arguments count if all earlier ones are empty. -/
theorem firstArgs_append (xs ys : List FieldSelection) :
    firstArgs (xs ++ ys) = if (firstArgs xs).isEmpty then firstArgs ys else firstArgs xs := by
  rw [firstArgs, firstArgs, firstArgs, List.map_append, List.find?_append]
  cases h : (xs.map (·.args)).find? fun args => !args.isEmpty with
  | none => rfl
  | some args =>
    have hargs : args.isEmpty = false := by simpa using List.find?_some h
    rw [Option.some_or, Option.getD_some, hargs]
    rfl

/-- Arguments that are not empty are those of some occurrence. -/
theorem exists_mem_of_firstArgs {selections : List FieldSelection}
    (h : firstArgs selections ≠ []) : ∃ s ∈ selections, s.args = firstArgs selections := by
  unfold firstArgs at h ⊢
  cases hfind : (selections.map (·.args)).find? fun args => !args.isEmpty with
  | none => rw [hfind] at h; exact absurd rfl h
  | some args => exact List.mem_map.mp (List.mem_of_find?_eq_some hfind)

theorem mem_of_mem_firsts {s : FieldSelection} : ∀ {selections : List FieldSelection},
    s ∈ firsts selections → s ∈ selections
  | x :: xs, hs => by
    rw [firsts, List.mem_cons] at hs
    rcases hs with rfl | hs
    · exact List.mem_cons_self
    · exact List.mem_cons_of_mem _ (mem_of_mem_firsts (List.mem_filter.mp hs).1)

theorem exists_mem_firsts {s : FieldSelection} : ∀ {selections : List FieldSelection},
    s ∈ selections → ∃ t ∈ firsts selections, t.name = s.name
  | x :: xs, hs => by
    rw [firsts]
    by_cases hname : s.name = x.name
    · exact ⟨x, List.mem_cons_self, hname.symm⟩
    · obtain ⟨t, ht, htname⟩ := exists_mem_firsts
        ((List.mem_cons.mp hs).resolve_left fun heq => hname (congrArg name heq))
      refine ⟨t, List.mem_cons_of_mem _ (List.mem_filter.mpr ⟨ht, ?_⟩), htname⟩
      exact decide_eq_true (htname ▸ hname)

theorem nodup_firsts : ∀ selections : List FieldSelection,
    ((firsts selections).map (·.name)).Nodup
  | [] => List.nodup_nil
  | x :: xs => by
    rw [firsts, List.map_cons, List.nodup_cons]
    refine ⟨fun hmem => ?_, (nodup_firsts xs).sublist (List.filter_sublist.map _)⟩
    obtain ⟨t, ht, hname⟩ := List.mem_map.mp hmem
    exact of_decide_eq_true (List.mem_filter.mp ht).2 hname

/-- A selection is the first under its name if no earlier one has the name. -/
theorem firsts_concat (s : FieldSelection) : ∀ selections : List FieldSelection,
    firsts (selections ++ [s]) =
      firsts selections ++ if s.name ∈ selections.map (·.name) then [] else [s]
  | [] => rfl
  | x :: xs => by
    rw [List.cons_append, firsts, firsts, firsts_concat s xs, List.filter_append, List.cons_append,
      List.map_cons]
    by_cases hx : s.name = x.name
    · split <;> simp [hx]
    · by_cases hxs : s.name ∈ xs.map (·.name)
      · simp [hxs]
      · rw [if_neg hxs, if_neg (by simp only [List.mem_cons, hx, hxs, or_self, not_false_iff])]
        simp [hx]

/-- Where no name stands twice, every selection is the first and the only one under its name. -/
theorem firsts_of_nodup : ∀ {selections : List FieldSelection},
    (selections.map (·.name)).Nodup → firsts selections = selections
  | [], _ => rfl
  | x :: xs, h => by
    rw [List.map_cons, List.nodup_cons] at h
    rw [firsts, firsts_of_nodup h.2, List.filter_eq_self.mpr]
    exact fun t ht => decide_eq_true fun heq => h.1 (List.mem_map.mpr ⟨t, ht, heq⟩)

theorem occurrences_of_nodup {s : FieldSelection} {selections : List FieldSelection}
    (h : (selections.map (·.name)).Nodup) (hs : s ∈ selections) :
    occurrences s.name selections = [s] := by
  obtain ⟨before, after, rfl⟩ := List.append_of_mem hs
  rw [List.map_append, List.map_cons, List.nodup_append, List.nodup_cons] at h
  obtain ⟨-, ⟨hafter, -⟩, hbefore⟩ := h
  rw [occurrences_append, ← List.singleton_append, occurrences_append, occurrences_self,
    occurrences_eq_nil hafter,
    occurrences_eq_nil fun hmem => hbefore _ hmem _ List.mem_cons_self rfl]
  rfl

end FieldSelection

/-! ## Requested fields -/

namespace RequestedFields

open FieldSelection

variable {entity : Entity} {s : FieldSelection} {before : List FieldSelection}

/-- What a list asks of the relation of a selection: all occurrences in one. -/
def relationOf? (entity : Entity) (selections : List FieldSelection) (s : FieldSelection) :
    Option RequestedRelation :=
  (entity.relation? s.name).map fun relation => {
    field := s.name
    relation
    args := firstArgs (occurrences s.name selections)
    selections := gathered (occurrences s.name selections) }

/-- What a list of selections asks for. -/
def requestedOf (entity : Entity) (selections : List FieldSelection) : RequestedFields where
  scalars := ((firsts selections).filter fun s => (entity.relation? s.name).isNone).map (·.name)
  relations := (firsts selections).filterMap (relationOf? entity selections)

/-- A selection of a relation has arguments other than those that stand before it. -/
def Clash (entity : Entity) (before : List FieldSelection) (s : FieldSelection) : Prop :=
  (entity.relation? s.name).isSome = true ∧ firstArgs (occurrences s.name before) ≠ [] ∧
    s.args ≠ [] ∧
    (Json.object s.args).same (.object (firstArgs (occurrences s.name before))) = false

/-! ### One relation -/

theorem addRelation_of_not_mem {relation : Relation} : ∀ {rs : List RequestedRelation},
    s.name ∉ rs.map (·.field) →
      addRelation relation s rs = .ok (rs ++ [⟨s.name, relation, s.args, s.selections⟩])
  | [], _ => rfl
  | r :: rest, h => by
    rw [List.map_cons, List.mem_cons, not_or] at h
    rw [addRelation, if_neg (Ne.symm h.1), addRelation_of_not_mem h.2]
    rfl

/-- An occurrence is merged into the relation that has its name, and leaves all others alone. -/
theorem addRelation_of_mem {relation : Relation} {r : RequestedRelation} :
    ∀ {rs : List RequestedRelation}, (rs.map (·.field)).Nodup → r ∈ rs → r.field = s.name →
      addRelation relation s rs =
        (r.merge s).map fun merged => rs.map fun x => if x.field = s.name then merged else x
  | x :: rest, hnodup, hr, hname => by
    rw [List.map_cons, List.nodup_cons] at hnodup
    rw [addRelation]
    by_cases hx : x.field = s.name
    · have hrest : ∀ y ∈ rest, y.field ≠ s.name := fun y hy heq =>
        hnodup.1 (hx.trans heq.symm ▸ List.mem_map_of_mem (f := (·.field)) hy)
      obtain rfl := (List.mem_cons.mp hr).resolve_right fun hmem => hrest r hmem hname
      have hsame : ∀ merged : RequestedRelation,
          rest.map (fun y => if y.field = s.name then merged else y) = rest := fun merged =>
        (List.map_congr_left fun y hy => if_neg (hrest y hy)).trans (List.map_id' rest)
      rw [if_pos hx]
      simp only [List.map_cons, if_pos hx, hsame]
      cases r.merge s <;> rfl
    · have hr : r ∈ rest := (List.mem_cons.mp hr).resolve_left fun heq => hx (heq ▸ hname)
      rw [if_neg hx, addRelation_of_mem hnodup.2 hr hname]
      simp only [List.map_cons, if_neg hx]
      cases r.merge s <;> rfl

/-- Merging a relation that several selections ask for with one more of them. -/
theorem merge_relationOf {relation : Relation} (hrelation : entity.relation? s.name = some relation)
    (hclash : ¬ Clash entity before s) :
    RequestedRelation.merge
        ⟨s.name, relation, firstArgs (occurrences s.name before),
          gathered (occurrences s.name before)⟩ s =
      .ok ⟨s.name, relation, firstArgs (occurrences s.name (before ++ [s])),
        gathered (occurrences s.name (before ++ [s]))⟩ := by
  rw [occurrences_append, occurrences_self, firstArgs_append, firstArgs_singleton, gathered_append,
    gathered_singleton, RequestedRelation.merge]
  dsimp only
  split
  · rfl
  · rename_i hargs
    rw [if_pos]
    by_contra hdiffer
    simp only [Bool.or_eq_true, List.isEmpty_iff, not_or] at hargs hdiffer
    exact hclash ⟨by rw [hrelation]; rfl, hargs, hdiffer.1, Bool.eq_false_iff.mpr hdiffer.2⟩

theorem merge_relationOf_of_clash {relation : Relation} (hclash : Clash entity before s) :
    RequestedRelation.merge
        ⟨s.name, relation, firstArgs (occurrences s.name before),
          gathered (occurrences s.name before)⟩ s =
      .error (.malformedSelection (.conflictingArguments s.name)) := by
  obtain ⟨-, hfirst, hargs, hdiffer⟩ := hclash
  rw [← List.isEmpty_eq_false_iff] at hfirst hargs
  rw [RequestedRelation.merge]
  simp only [hfirst, hargs, hdiffer, Bool.or_false, Bool.false_eq_true, if_false]

/-! ### One selection -/

theorem relationOf?_concat_of_ne {t : FieldSelection} (hne : t.name ≠ s.name) :
    relationOf? entity (before ++ [s]) t = relationOf? entity before t := by
  have hnone : occurrences t.name [s] = [] := by simp [occurrences, Ne.symm hne]
  rw [relationOf?, relationOf?, occurrences_append, hnone, List.append_nil]

theorem field_of_relationOf? {t : FieldSelection} {selections : List FieldSelection}
    {r : RequestedRelation} (h : relationOf? entity selections t = some r) :
    r.field = t.name := by
  obtain ⟨relation, -, rfl⟩ := Option.map_eq_some_iff.mp h
  rfl

/-- No relation is requested twice. -/
theorem nodup_requestedOf (entity : Entity) (selections : List FieldSelection) :
    ((requestedOf entity selections).relations.map (·.field)).Nodup := by
  have hsublist : ∀ xs : List FieldSelection,
      ((xs.filterMap (relationOf? entity selections)).map (·.field)).Sublist
        (xs.map (·.name)) := by
    intro xs
    induction xs with
    | nil => exact List.Sublist.slnil
    | cons t rest ih =>
      rw [List.filterMap_cons, List.map_cons]
      cases h : relationOf? entity selections t with
      | none => exact ih.cons _
      | some r =>
        rw [List.map_cons, field_of_relationOf? h]
        exact ih.cons_cons _
  exact (nodup_firsts selections).sublist (hsublist _)

theorem scalars_concat : (requestedOf entity (before ++ [s])).scalars =
    (requestedOf entity before).scalars ++
      if s.name ∈ before.map (·.name) ∨ (entity.relation? s.name).isSome = true then []
      else [s.name] := by
  rw [requestedOf, requestedOf, firsts_concat, List.filter_append, List.map_append]
  by_cases hmem : s.name ∈ before.map (·.name)
  · rw [if_pos hmem, if_pos (Or.inl hmem)]
    rfl
  · rw [if_neg hmem]
    cases hrelation : entity.relation? s.name <;> simp [hrelation, hmem]

theorem mem_scalars_requestedOf (hrelation : entity.relation? s.name = none) :
    s.name ∈ (requestedOf entity before).scalars ↔ s.name ∈ before.map (·.name) := by
  constructor
  · intro h
    obtain ⟨t, ht, hname⟩ := List.mem_map.mp h
    exact List.mem_map.mpr ⟨t, mem_of_mem_firsts (List.mem_filter.mp ht).1, hname⟩
  · intro h
    obtain ⟨t, ht, hname⟩ := List.mem_map.mp h
    obtain ⟨first, hfirst, hfirstname⟩ := exists_mem_firsts ht
    refine List.mem_map.mpr ⟨first, List.mem_filter.mpr ⟨hfirst, ?_⟩, hfirstname.trans hname⟩
    rw [hfirstname.trans hname, hrelation]
    rfl

/-- A new name brings its relation, if it is that of one, and what is requested stays. -/
theorem relations_concat_of_not_mem (hmem : s.name ∉ before.map (·.name)) :
    (requestedOf entity (before ++ [s])).relations =
      (requestedOf entity before).relations ++ (relationOf? entity [s] s).toList := by
  have hother : ∀ t ∈ firsts before,
      relationOf? entity (before ++ [s]) t = relationOf? entity before t := fun t ht =>
    relationOf?_concat_of_ne fun heq =>
      hmem (List.mem_map.mpr ⟨t, mem_of_mem_firsts ht, heq⟩)
  have hself : relationOf? entity (before ++ [s]) s = relationOf? entity [s] s := by
    rw [relationOf?, occurrences_append, occurrences_eq_nil hmem, List.nil_append]
    rfl
  rw [requestedOf, requestedOf, firsts_concat, if_neg hmem, List.filterMap_append]
  dsimp only
  rw [List.filterMap_congr hother, List.filterMap_cons, hself]
  cases relationOf? entity [s] s <;> rfl

/-- A known name changes the relation that has it. -/
theorem relations_concat_of_mem (hmem : s.name ∈ before.map (·.name)) :
    (requestedOf entity (before ++ [s])).relations =
      (requestedOf entity before).relations.map fun r =>
        if r.field = s.name then (relationOf? entity (before ++ [s]) s).getD r else r := by
  rw [requestedOf, requestedOf, firsts_concat, if_pos hmem, List.append_nil]
  dsimp only
  rw [List.map_filterMap]
  refine List.filterMap_congr fun t _ => ?_
  by_cases hname : t.name = s.name
  · rw [relationOf?, relationOf?, relationOf?, hname]
    cases entity.relation? s.name <;> simp
  · rw [relationOf?_concat_of_ne hname]
    cases hbefore : relationOf? entity before t with
    | none => rfl
    | some r => rw [Option.map_some, if_neg (field_of_relationOf? hbefore ▸ hname)]

theorem relationOf?_eq_some {relation : Relation}
    (hrelation : entity.relation? s.name = some relation) (selections : List FieldSelection) :
    relationOf? entity selections s = some ⟨s.name, relation,
      firstArgs (occurrences s.name selections), gathered (occurrences s.name selections)⟩ := by
  rw [relationOf?, hrelation]
  rfl

theorem relationOf?_eq_none (hrelation : entity.relation? s.name = none)
    (selections : List FieldSelection) : relationOf? entity selections s = none := by
  rw [relationOf?, hrelation]
  rfl

/-- The relation of a name that has been seen is requested. -/
theorem mem_relations_requestedOf {relation : Relation}
    (hrelation : entity.relation? s.name = some relation)
    (hmem : s.name ∈ before.map (·.name)) :
    ⟨s.name, relation, firstArgs (occurrences s.name before),
      gathered (occurrences s.name before)⟩ ∈ (requestedOf entity before).relations := by
  obtain ⟨t, ht, hname⟩ := List.mem_map.mp hmem
  obtain ⟨first, hfirst, hfirstname⟩ := exists_mem_firsts ht
  refine List.mem_filterMap.mpr ⟨first, hfirst, ?_⟩
  have hsame : first.name = s.name := hfirstname.trans hname
  rw [relationOf?, hsame]
  exact relationOf?_eq_some hrelation before

/-- One more selection that is seen and does not clash with what stands before it. -/
theorem add_requestedOf (hseen : isIntrospection s.name = false)
    (hclash : ¬ Clash entity before s) :
    add entity (requestedOf entity before) s = .ok (requestedOf entity (before ++ [s])) := by
  have hconcat : ∀ {scalars relations}, (requestedOf entity (before ++ [s])).scalars = scalars →
      (requestedOf entity (before ++ [s])).relations = relations →
        requestedOf entity (before ++ [s]) = ⟨scalars, relations⟩ := by
    rintro scalars relations rfl rfl
    rfl
  rw [add, hseen, if_neg Bool.false_ne_true]
  cases hrelation : entity.relation? s.name with
  | none =>
    have hscalar : s.name ∈ (requestedOf entity before).scalars ↔ s.name ∈ before.map (·.name) :=
      mem_scalars_requestedOf hrelation
    by_cases hmem : s.name ∈ before.map (·.name)
    · rw [hconcat scalars_concat (relations_concat_of_mem hmem), if_pos (Or.inl hmem)]
      simp [relationOf?_eq_none hrelation, hscalar, hmem]
    · rw [hconcat scalars_concat (relations_concat_of_not_mem hmem)]
      simp [relationOf?_eq_none hrelation, hscalar, hmem, hrelation]
  | some relation =>
    have hscalars : (entity.relation? s.name).isSome = true := by rw [hrelation]; rfl
    dsimp only
    by_cases hmem : s.name ∈ before.map (·.name)
    · rw [addRelation_of_mem (nodup_requestedOf entity before)
        (mem_relations_requestedOf hrelation hmem) rfl, merge_relationOf hrelation hclash,
        hconcat scalars_concat (relations_concat_of_mem hmem), if_pos (Or.inr hscalars),
        relationOf?_eq_some hrelation, List.append_nil]
      rfl
    · have hnew : s.name ∉ (requestedOf entity before).relations.map (·.field) := by
        intro hfield
        obtain ⟨r, hr, hname⟩ := List.mem_map.mp hfield
        obtain ⟨t, ht, hr⟩ := List.mem_filterMap.mp hr
        exact hmem (List.mem_map.mpr ⟨t, mem_of_mem_firsts ht,
          (field_of_relationOf? hr).symm.trans hname⟩)
      rw [addRelation_of_not_mem hnew, hconcat scalars_concat (relations_concat_of_not_mem hmem),
        if_pos (Or.inr hscalars), relationOf?_eq_some hrelation, occurrences_self,
        firstArgs_singleton, gathered_singleton, List.append_nil]
      rfl

/-- One that does clash is refused. -/
theorem add_requestedOf_of_clash (hseen : isIntrospection s.name = false)
    (hclash : Clash entity before s) :
    add entity (requestedOf entity before) s
      = .error (.malformedSelection (.conflictingArguments s.name)) := by
  obtain ⟨relation, hrelation⟩ := Option.isSome_iff_exists.mp hclash.1
  have hmem : s.name ∈ before.map (·.name) := by
    by_contra hnew
    exact hclash.2.1 (by rw [occurrences_eq_nil hnew]; rfl)
  rw [add, hseen, if_neg Bool.false_ne_true, hrelation]
  dsimp only
  rw [addRelation_of_mem (nodup_requestedOf entity before)
    (mem_relations_requestedOf hrelation hmem) rfl, merge_relationOf_of_clash hclash]
  rfl

/-! ### All selections -/

theorem ofSelections_append {fields : RequestedFields} : ∀ {xs ys : List FieldSelection},
    ofSelections entity fields (xs ++ ys) =
      ofSelections entity fields xs >>= fun fields => ofSelections entity fields ys := by
  intro xs ys
  induction xs generalizing fields with
  | nil => rfl
  | cons x xs ih =>
    rw [List.cons_append, ofSelections, ofSelections]
    cases add entity fields x with
    | error e => rfl
    | ok next => exact ih

/-- Selections that are not shown make no difference. -/
theorem ofSelections_shown {fields : RequestedFields} : ∀ selections : List FieldSelection,
    ofSelections entity fields (shown selections) = ofSelections entity fields selections := by
  intro selections
  induction selections generalizing fields with
  | nil => rfl
  | cons x xs ih =>
    cases hseen : isIntrospection x.name with
    | true =>
      have hskip : add entity fields x = .ok fields := by rw [add, hseen, if_pos rfl]
      rw [shown, List.filter_cons_of_neg (by simp [hseen]), ofSelections, hskip]
      exact ih
    | false =>
      rw [shown, List.filter_cons_of_pos (by simp [hseen]), ofSelections, ofSelections]
      cases add entity fields x with
      | error e => rfl
      | ok next => exact ih

/-- No selection of a list clashes with those before it. -/
def ClashFree (entity : Entity) (selections : List FieldSelection) : Prop :=
  ∀ before s, before ++ [s] <+: selections → ¬ Clash entity before s

theorem clashFree_concat_iff {selections : List FieldSelection} :
    ClashFree entity (selections ++ [s]) ↔
      ClashFree entity selections ∧ ¬ Clash entity selections s := by
  constructor
  · intro h
    exact ⟨fun before t ht => h before t (ht.trans (List.prefix_append _ _)),
      h selections s (List.prefix_refl _)⟩
  · rintro ⟨hfree, hlast⟩ before t ht
    rcases List.prefix_concat_iff.mp ht with heq | ht
    · obtain ⟨rfl, rfl⟩ := List.append_singleton_inj.mp heq
      exact hlast
    · exact hfree before t ht

theorem ofSelections_eq_ok_iff_of_seen {fields : RequestedFields} {selections : List FieldSelection}
    (hseen : ∀ s ∈ selections, isIntrospection s.name = false) :
    ofSelections entity {} selections = .ok fields ↔
      ClashFree entity selections ∧ requestedOf entity selections = fields := by
  induction selections using List.reverseRecOn generalizing fields with
  | nil => simp [ofSelections, ClashFree, requestedOf, firsts]
  | append_singleton xs s ih =>
    rw [List.forall_mem_append, List.forall_mem_singleton] at hseen
    rw [clashFree_concat_iff, ofSelections_append, Outcome.bind_eq_ok_iff]
    constructor
    · rintro ⟨next, hnext, h⟩
      obtain ⟨hfree, rfl⟩ := (ih hseen.1).mp hnext
      rw [ofSelections] at h
      by_cases hclash : Clash entity xs s
      · rw [add_requestedOf_of_clash hseen.2 hclash] at h
        cases h
      · rw [add_requestedOf hseen.2 hclash] at h
        cases h
        exact ⟨⟨hfree, hclash⟩, rfl⟩
    · rintro ⟨⟨hfree, hclash⟩, rfl⟩
      refine ⟨_, (ih hseen.1).mpr ⟨hfree, rfl⟩, ?_⟩
      rw [ofSelections, add_requestedOf hseen.2 hclash]
      rfl

/-- Selections are merged exactly when none that is shown clashes with those before it, into what
the list as a whole asks for. -/
theorem ofSelections_eq_ok_iff {fields : RequestedFields} {selections : List FieldSelection} :
    ofSelections entity {} selections = .ok fields ↔
      ClashFree entity (shown selections) ∧ requestedOf entity (shown selections) = fields := by
  rw [← ofSelections_shown selections]
  exact ofSelections_eq_ok_iff_of_seen fun s hs => (mem_shown_iff.mp hs).2

theorem clashFree_of_nodup {selections : List FieldSelection}
    (h : (selections.map (·.name)).Nodup) : ClashFree entity selections := by
  rintro before s hbefore ⟨-, hfirst, -, -⟩
  have hnodup := h.sublist (hbefore.sublist.map (·.name))
  rw [List.map_append, List.nodup_append] at hnodup
  have hnew : s.name ∉ before.map (·.name) := fun hmem =>
    hnodup.2.2 _ hmem _ List.mem_cons_self rfl
  rw [occurrences_eq_nil hnew] at hfirst
  exact hfirst rfl

end RequestedFields
end NestedRead
