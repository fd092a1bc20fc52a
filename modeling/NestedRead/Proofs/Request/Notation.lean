import Mathlib
import NestedRead.Request.Basic

/-!
# How requests are written

A request is written in one way, every member spelled out, and is read in many. Two facts hold
these together: what is written is read back, and it does not matter how a leaf is written, which
is a field that is selected without arguments and selections. A leaf has its bare name for a
notation, or an object with the name, in which empty arguments and selections may stand or be left
out.

`FieldSelection.Respelled` changes the notation of one leaf at one place, any number of lists
deep, and nothing else: what stands in the arguments is not read as selections, so it is left
alone. A run of such changes, to and fro, is their closure, and the main statement is an induction
over it whose step is `Request.Respelled.ofJson_eq`.
-/

set_option autoImplicit false

namespace NestedRead

open Json (DecodeError)

namespace FieldSelection

/-! ## Reading an entry -/

/-- What an entry of a list is read as. -/
def ofEntry : Json → Except DecodeError FieldSelection
  | .string name => .ok (leaf name)
  | item => (ofJson item).mapError fun _ => .noVariant "Entry"

theorem entriesOf_cons (item : Json) (rest : List Json) :
    entriesOf (item :: rest) = do return (← ofEntry item) :: (← entriesOf rest) := by
  cases item with
  | string name => rfl
  | _ =>
    rw [entriesOf, ofEntry]
    · cases ofJson _ <;> rfl
    all_goals
      rintro name h
      cases h

theorem ofEntry_of_ofJson {item : Json} {selection : FieldSelection}
    (h : ofJson item = .ok selection) : ofEntry item = .ok selection := by
  cases item with
  | string name => simp [ofJson] at h
  | _ => exact congrArg (Except.mapError fun _ => DecodeError.noVariant "Entry") h

/-! ## Reading a member -/

section partsOf

variable (parts : Parts) (rest : Json.Members)

theorem partsOf_name (name : String) : partsOf parts (("name", .string name) :: rest) =
    partsOf { parts with name := some name } rest := by
  rw [partsOf, if_pos rfl]
  rfl

theorem partsOf_args (args : Json.Members) : partsOf parts (("args", .object args) :: rest) =
    partsOf { parts with args := some args } rest := by
  rw [partsOf, if_neg (by decide), if_pos rfl]
  rfl

theorem partsOf_selections (value : Json) : partsOf parts (("selections", value) :: rest) =
    selectionsOf value >>= fun selections =>
      partsOf { parts with selections := some selections } rest := by
  rw [partsOf, if_neg (by decide), if_neg (by decide), if_pos rfl]

end partsOf

/-! ## What is written is read back -/

mutual

theorem ofJson_toJson : ∀ selection : FieldSelection, ofJson selection.toJson = .ok selection
  | ⟨name, args, selections⟩ => by
    have hselections : selectionsOf (.array (toJsons selections)) = .ok selections :=
      entriesOf_toJsons selections
    rw [toJson, ofJson, partsOf_name, partsOf_args, partsOf_selections, hselections]
    rfl

theorem entriesOf_toJsons : ∀ selections : List FieldSelection,
    entriesOf (toJsons selections) = .ok selections
  | [] => rfl
  | ⟨name, args, selections⟩ :: rest => by
    have hentry : ofEntry (toJson ⟨name, args, selections⟩) = .ok ⟨name, args, selections⟩ :=
      ofEntry_of_ofJson (ofJson_toJson ⟨name, args, selections⟩)
    rw [toJsons, entriesOf_cons, hentry, entriesOf_toJsons rest]
    rfl

end

/-! ## Notations of a leaf -/

/-- How an entry may be written that selects a field without arguments and selections: as the bare
name, or as an object that holds the name and no arguments and selections but empty ones. -/
inductive Leaf (name : String) : Json → Prop
  | bare : Leaf name (.string name)
  | record {members : Json.Members} (named : ("name", .string name) ∈ members)
      (plain : ∀ member ∈ members, member = ("name", .string name) ∨
        member = ("args", .object []) ∨ member = ("selections", .array [])) :
      Leaf name (.object members)

/-- What has been read leaves arguments and selections empty. -/
structure Parts.Plain (parts : Parts) : Prop where
  args : parts.args.getD [] = []
  selections : parts.selections.getD [] = []

/-- Members that form a leaf are read in any order. The name is there in the end when it was there
before or is among them. -/
theorem partsOf_plain {name : String} : ∀ {members : Json.Members} (parts : Parts), parts.Plain →
    (∀ member ∈ members, member = ("name", .string name) ∨ member = ("args", .object []) ∨
      member = ("selections", .array [])) →
    ∃ found, partsOf parts members = .ok found ∧ found.Plain ∧
      (parts.name = some name ∨ ("name", .string name) ∈ members → found.name = some name)
  | [], parts, hparts, _ => ⟨parts, rfl, hparts, by simp⟩
  | member :: members, parts, hparts, hplain => by
    obtain ⟨hmember, hrest⟩ := List.forall_mem_cons.mp hplain
    rcases hmember with rfl | rfl | rfl
    · obtain ⟨found, hfound, hplain, hname⟩ :=
        partsOf_plain { parts with name := some name } ⟨hparts.1, hparts.2⟩ hrest
      rw [partsOf_name]
      exact ⟨found, hfound, hplain, fun _ => hname (.inl rfl)⟩
    · obtain ⟨found, hfound, hplain, hname⟩ :=
        partsOf_plain { parts with args := some [] } ⟨rfl, hparts.2⟩ hrest
      rw [partsOf_args]
      exact ⟨found, hfound, hplain, fun h => hname (by simpa using h)⟩
    · obtain ⟨found, hfound, hplain, hname⟩ :=
        partsOf_plain { parts with selections := some [] } ⟨hparts.1, rfl⟩ hrest
      rw [partsOf_selections]
      exact ⟨found, hfound, hplain, fun h => hname (by simpa using h)⟩

theorem Leaf.ofEntry_eq {name : String} {v : Json} (h : Leaf name v) :
    ofEntry v = .ok (leaf name) := by
  cases h with
  | bare => rfl
  | @record members named plain =>
    obtain ⟨found, hfound, hplain, hname⟩ := partsOf_plain {} ⟨rfl, rfl⟩ plain
    refine ofEntry_of_ofJson ?_
    rw [ofJson, hfound]
    show found.finish = _
    rw [Parts.finish, hname (.inr named), hplain.args, hplain.selections]
    rfl

/-! ## Changing the notation of a leaf -/

mutual

/-- In the selections of a selection, one leaf has another notation. The member is found by its
name or, where the selection is written as an array, by its place. -/
inductive Respelled : Json → Json → Prop
  | member (before after : Json.Members) (front back : List Json) {v w : Json}
      (entry : EntryRespelled v w) :
      Respelled (.object (before ++ ("selections", .array (front ++ v :: back)) :: after))
        (.object (before ++ ("selections", .array (front ++ w :: back)) :: after))
  | place (name args : Json) (front back more : List Json) {v w : Json}
      (entry : EntryRespelled v w) :
      Respelled (.array (name :: args :: .array (front ++ v :: back) :: more))
        (.array (name :: args :: .array (front ++ w :: back) :: more))

/-- The entry is a leaf that has another notation, or has one in its own selections. -/
inductive EntryRespelled : Json → Json → Prop
  | leaf {name : String} {v w : Json} (old : Leaf name v) (new : Leaf name w) : EntryRespelled v w
  | inside {v w : Json} (selection : Respelled v w) : EntryRespelled v w

end

/-- Lists are read alike when they differ in one entry, and that one is read alike. -/
theorem entriesOf_congr {v w : Json} (h : ofEntry v = ofEntry w) (back : List Json) :
    ∀ front : List Json, entriesOf (front ++ v :: back) = entriesOf (front ++ w :: back)
  | [] => by rw [List.nil_append, List.nil_append, entriesOf_cons, entriesOf_cons, h]
  | item :: front => by
    rw [List.cons_append, List.cons_append, entriesOf_cons, entriesOf_cons,
      entriesOf_congr h back front]

theorem partsOf_congr {s t : Json} (h : selectionsOf s = selectionsOf t) (after : Json.Members) :
    ∀ (before : Json.Members) (parts : Parts),
      partsOf parts (before ++ ("selections", s) :: after) =
        partsOf parts (before ++ ("selections", t) :: after)
  | [], parts => by
    rw [List.nil_append, List.nil_append, partsOf_selections, partsOf_selections, h]
  | (key, value) :: before, parts => by
    rw [List.cons_append, List.cons_append, partsOf, partsOf]
    simp only [partsOf_congr h after before]

mutual

/-- A selection is read alike in both notations, and refused for the same reason. -/
theorem Respelled.ofJson_eq : ∀ {v w : Json}, Respelled v w → ofJson v = ofJson w
  | _, _, .member before after front back entry => by
    have hlist : selectionsOf (.array _) = selectionsOf (.array _) :=
      entriesOf_congr entry.ofEntry_eq back front
    rw [ofJson, ofJson, partsOf_congr hlist]
  | _, _, .place name args front back more entry => by
    have hlist : selectionsOf (.array _) = selectionsOf (.array _) :=
      entriesOf_congr entry.ofEntry_eq back front
    rw [ofJson, ofJson, hlist]

theorem EntryRespelled.ofEntry_eq : ∀ {v w : Json}, EntryRespelled v w → ofEntry v = ofEntry w
  | _, _, .leaf old new => old.ofEntry_eq.trans new.ofEntry_eq.symm
  | _, _, .inside selection => by
    have hread := congrArg (Except.mapError fun _ => DecodeError.noVariant "Entry")
      selection.ofJson_eq
    cases selection <;> exact hread

end

end FieldSelection

/-! ## Requests -/

namespace Request

theorem partsOf_selection (parts : Parts) (value : Json) (rest : Json.Members) :
    partsOf parts (("selection", value) :: rest) =
      FieldSelection.ofJson value >>= fun selection =>
        partsOf { parts with selection := some selection } rest := by
  rw [partsOf, if_neg (by decide), if_pos rfl]

theorem partsOf_congr {v w : Json} (h : FieldSelection.ofJson v = FieldSelection.ofJson w)
    (after : Json.Members) : ∀ (before : Json.Members) (parts : Parts),
      partsOf parts (before ++ ("selection", v) :: after) =
        partsOf parts (before ++ ("selection", w) :: after)
  | [], parts => by
    rw [List.nil_append, List.nil_append, partsOf_selection, partsOf_selection, h]
  | (key, value) :: before, parts => by
    rw [List.cons_append, List.cons_append, partsOf, partsOf]
    simp only [partsOf_congr h after before]

theorem ofJson_toJson (request : Request) : ofJson request.toJson = .ok request := by
  have hselection := FieldSelection.ofJson_toJson request.selection
  rw [toJson, ofJson, partsOf, if_pos rfl]
  simp only [Json.expectString, partsOf_selection, hselection]
  rfl

/-- In the selection of a request, one leaf has another notation. -/
inductive Respelled : Json → Json → Prop
  | member (before after : Json.Members) {v w : Json} (selection : FieldSelection.Respelled v w) :
      Respelled (.object (before ++ ("selection", v) :: after))
        (.object (before ++ ("selection", w) :: after))
  | place (entity : Json) (more : List Json) {v w : Json}
      (selection : FieldSelection.Respelled v w) :
      Respelled (.array (entity :: v :: more)) (.array (entity :: w :: more))

theorem Respelled.ofJson_eq {v w : Json} (h : Respelled v w) : ofJson v = ofJson w := by
  cases h with
  | member before after selection =>
    rw [ofJson, ofJson, partsOf_congr selection.ofJson_eq]
  | place entity more selection =>
    rw [ofJson, ofJson, selection.ofJson_eq]

/-- **Requests survive being written, and leaves may be written in any notation.** What is written
is read back as the request that it was. A value in which any number of leaves is given another
notation, at any depth, is read as the same request; or, where it is no request, it is refused for
the same reason. -/
theorem ofJson_notations :
    (∀ request : Request, ofJson request.toJson = .ok request) ∧
    ∀ v w : Json, Relation.ReflTransGen Respelled v w → ofJson w = ofJson v := by
  refine ⟨ofJson_toJson, fun v w h => ?_⟩
  induction h with
  | refl => rfl
  | tail _ step ih => exact step.ofJson_eq.symm.trans ih

end Request

/-! ## A request in two notations -/

namespace Sample

/-- Authors by name and the titles of their books. -/
def titles : Request where
  entity := "Author"
  selection := ⟨"authors", [("limit", .string "5")], [.leaf "name", ⟨"books", [], [.leaf "title"]⟩]⟩

/-- The same, with its two leaves in some notation. -/
def titlesWith (name title : Json) : Json :=
  .object [("entity", .string "Author"), ("selection", .object [("name", .string "authors"),
    ("args", .object [("limit", .string "5")]), ("selections", .array [name,
      .object [("name", .string "books"), ("selections", .array [title])]])])]

/-- A leaf with every member spelled out, the name last. -/
def spelledOut (name : String) : Json :=
  .object [("selections", .array []), ("args", .object []), ("name", .string name)]

theorem leaf_spelledOut (name : String) : FieldSelection.Leaf name (spelledOut name) :=
  .record (by simp) (by simp)

theorem leaf_named (name : String) : FieldSelection.Leaf name (.object [("name", .string name)]) :=
  .record (by simp) (by simp)

end Sample

/-- Two bare leaves, one inside the selections of the other's neighbour, are spelled out. -/
theorem Request.ofJson_notations_titles :
    Relation.ReflTransGen Respelled (Sample.titlesWith (.string "name") (.string "title"))
      (Sample.titlesWith (Sample.spelledOut "name") (.object [("name", .string "title")])) ∧
    ofJson (Sample.titlesWith (Sample.spelledOut "name") (.object [("name", .string "title")])) =
      .ok Sample.titles ∧
    ofJson Sample.titles.toJson = .ok Sample.titles := by
  have hname : ∀ title, Respelled (Sample.titlesWith (.string "name") title)
      (Sample.titlesWith (Sample.spelledOut "name") title) := fun title =>
    .member [_] [] (.member [_, _] [] [] [_] (.leaf .bare (Sample.leaf_spelledOut "name")))
  have htitle : ∀ name, Respelled (Sample.titlesWith name (.string "title"))
      (Sample.titlesWith name (.object [("name", .string "title")])) := fun name =>
    .member [_] [] (.member [_, _] [] [_] [] (.inside (.member [_] [] [] []
      (.leaf .bare (Sample.leaf_named "title")))))
  have hboth := Relation.ReflTransGen.tail (.single (hname _)) (htitle _)
  exact ⟨hboth, (ofJson_notations.2 _ _ hboth).trans rfl, ofJson_notations.1 _⟩

end NestedRead
