import NestedRead.Statement.Render

/-!
# Placeholders in a text

A reader of SQL goes through the text character by character and skips each name in double quotes
as a whole; two double quotes inside of a name are one that belongs to it. A question mark that it
finds anywhere else is a placeholder. `Sql.placeholders` counts them, `Sql.fill` writes operands in
their places.

`Sql.Aligned` says that a text has a placeholder for each operand, and what the text stands for when
the operands are in place. Aligned texts can be put one behind the other, so a text is aligned as
soon as each of its pieces is.
-/

set_option autoImplicit false

namespace NestedRead.Sql

/-! ## The reader -/

/-- Where a reader stands. -/
inductive Place where
  | code
  | name
  /-- Behind a double quote in a name, which ends there unless another double quote follows. -/
  | quote
deriving DecidableEq

namespace Place

def next : Place → Char → Place
  | .code, c => if c = '"' then .name else .code
  | .name, c => if c = '"' then .quote else .name
  | .quote, c => if c = '"' then .name else .code

/-- Where the reader stands behind a text. -/
def after (place : Place) (text : List Char) : Place :=
  text.foldl next place

/-- A question mark is a placeholder where it is not a part of a name. -/
def isPlaceholder (place : Place) (c : Char) : Bool :=
  c = '?' && place ≠ .name

def count : Place → List Char → Nat
  | _, [] => 0
  | place, c :: cs => (if place.isPlaceholder c then 1 else 0) + count (place.next c) cs

/-- The text with operands in the places of its placeholders, as far as there are any. -/
def fill : Place → List Char → List String → List Char
  | _, [], _ => []
  | place, c :: cs, [] => c :: fill (place.next c) cs []
  | place, c :: cs, operand :: more =>
    if place.isPlaceholder c then operand.toList ++ fill (place.next c) cs more
    else c :: fill (place.next c) cs (operand :: more)

end Place

/-- The number of placeholders in a text. -/
def placeholders (text : String) : Nat :=
  Place.code.count text.toList

/-- A text with operands written in the places of its placeholders, in their order. -/
def fill (text : String) (operands : List String) : String :=
  String.ofList (Place.code.fill text.toList operands)

namespace Place

theorem after_cons (place : Place) (c : Char) (cs : List Char) :
    place.after (c :: cs) = (place.next c).after cs :=
  rfl

theorem after_append (place : Place) (s t : List Char) :
    place.after (s ++ t) = (place.after s).after t :=
  List.foldl_append

theorem count_append (place : Place) (s t : List Char) :
    place.count (s ++ t) = place.count s + (place.after s).count t := by
  induction s generalizing place with
  | nil => rw [List.nil_append, count, Nat.zero_add, after, List.foldl_nil]
  | cons c cs ih => rw [List.cons_append, count, count, ih, Nat.add_assoc, after_cons]

theorem fill_nil (place : Place) (s : List Char) : place.fill s [] = s := by
  induction s generalizing place with
  | nil => rfl
  | cons c cs ih => rw [fill, ih]

theorem fill_cons_of_not {place : Place} {c : Char} (h : place.isPlaceholder c = false)
    (cs : List Char) (operands : List String) :
    place.fill (c :: cs) operands = c :: (place.next c).fill cs operands := by
  cases operands with
  | nil => rfl
  | cons operand more => rw [fill, if_neg (by simp [h])]

theorem fill_append (place : Place) (s t : List Char) (xs ys : List String)
    (h : place.count s = xs.length) :
    place.fill (s ++ t) (xs ++ ys) = place.fill s xs ++ (place.after s).fill t ys := by
  induction s generalizing place xs with
  | nil =>
    rw [List.length_eq_zero_iff.mp h.symm]
    rfl
  | cons c cs ih =>
    rw [count] at h
    cases hc : place.isPlaceholder c with
    | false =>
      rw [hc, if_neg Bool.false_ne_true, Nat.zero_add] at h
      rw [List.cons_append, fill_cons_of_not hc, fill_cons_of_not hc, ih _ _ h]
      rfl
    | true =>
      rw [hc, if_pos rfl, Nat.add_comm] at h
      obtain ⟨x, xs, rfl⟩ := List.exists_cons_of_length_eq_add_one h.symm
      rw [List.cons_append, List.cons_append, fill, fill, if_pos hc, if_pos hc,
        ih _ xs (Nat.add_right_cancel h), List.append_assoc]
      rfl

/-- Outside of names it makes no difference whether one has just come to its end. -/
theorem next_eq_code {place : Place} (h : place ≠ .name) (c : Char) :
    place.next c = Place.code.next c := by
  cases place with
  | code => rfl
  | name => exact absurd rfl h
  | quote => rfl

theorem isPlaceholder_eq_code {place : Place} (h : place ≠ .name) (c : Char) :
    place.isPlaceholder c = Place.code.isPlaceholder c := by
  simp [isPlaceholder, h]

theorem count_eq_code {place : Place} (h : place ≠ .name) (s : List Char) :
    place.count s = Place.code.count s := by
  cases s with
  | nil => rfl
  | cons c cs => rw [count, count, next_eq_code h, isPlaceholder_eq_code h]

theorem fill_eq_code {place : Place} (h : place ≠ .name) (s : List Char) (xs : List String) :
    place.fill s xs = Place.code.fill s xs := by
  cases s with
  | nil => rfl
  | cons c cs =>
    cases xs with
    | nil => rw [fill_nil, fill_nil]
    | cons x xs => rw [fill, fill, next_eq_code h, isPlaceholder_eq_code h]

theorem after_ne_name {place : Place} (h : place ≠ .name) {s : List Char}
    (hs : Place.code.after s ≠ .name) : place.after s ≠ .name := by
  cases s with
  | nil => exact h
  | cons c cs => rwa [after_cons, next_eq_code h]

end Place

/-! ## Aligned texts -/

/-- The text has a placeholder for each of the operands and reads as `written` with these in place;
no name is left open at its end. -/
structure Aligned (text : String) (operands : List String) (written : String) : Prop where
  ends : Place.code.after text.toList ≠ .name
  count : placeholders text = operands.length
  fill : fill text operands = written

/-- The double quotes of a text are balanced, and there is no placeholder in it. -/
def Closed (text : String) : Prop :=
  Place.code.after text.toList ≠ .name ∧ placeholders text = 0

instance (text : String) : Decidable (Closed text) := inferInstanceAs (Decidable (_ ∧ _))

theorem Closed.aligned {text : String} (h : Closed text) : Aligned text [] text where
  ends := h.1
  count := h.2
  fill := by rw [Sql.fill, Place.fill_nil, String.ofList_toList]

theorem Aligned.closed {text written : String} (h : Aligned text [] written) : Closed text :=
  ⟨h.ends, h.count⟩

theorem Aligned.append {s t v w : String} {xs ys : List String} (hs : Aligned s xs v)
    (ht : Aligned t ys w) : Aligned (s ++ t) (xs ++ ys) (v ++ w) where
  ends := by
    rw [String.toList_append, Place.after_append]
    exact Place.after_ne_name hs.ends ht.ends
  count := by
    rw [placeholders, String.toList_append, Place.count_append, Place.count_eq_code hs.ends,
      List.length_append, ← hs.count, ← ht.count]
    rfl
  fill := by
    rw [Sql.fill, String.toList_append, Place.fill_append _ _ _ _ _ hs.count,
      Place.fill_eq_code hs.ends, String.ofList_append, ← hs.fill, ← ht.fill]
    rfl

/-- Text without operands before an aligned one. -/
theorem Closed.before {s t w : String} {xs : List String} (hs : Closed s) (ht : Aligned t xs w) :
    Aligned (s ++ t) xs (s ++ w) :=
  hs.aligned.append ht

theorem Aligned.behind {s t v : String} {xs : List String} (hs : Aligned s xs v) (ht : Closed t) :
    Aligned (s ++ t) xs (v ++ t) := by
  have h := hs.append ht.aligned
  rwa [List.append_nil] at h

theorem Closed.append {s t : String} (hs : Closed s) (ht : Closed t) : Closed (s ++ t) :=
  (hs.before ht.aligned).closed

theorem aligned_placeholder (operand : String) : Aligned "?" [operand] operand where
  ends := by decide
  count := rfl
  fill := by
    rw [fill, show "?".toList = ['?'] from rfl, Place.fill, if_pos (by decide), Place.fill,
      List.append_nil, String.ofList_toList]

/-- Aligned texts that are joined by a separator. -/
theorem Aligned.joined {α : Type} {separator : String} (hseparator : Closed separator)
    {text written : α → String} {operands : α → List String} : ∀ {xs : List α},
    (∀ x ∈ xs, Aligned (text x) (operands x) (written x)) →
      Aligned (Text.joined separator (xs.map text)) (xs.flatMap operands)
        (Text.joined separator (xs.map written))
  | [], _ => (by decide : Closed "").aligned
  | [x], h => by
    rw [List.flatMap_cons, List.flatMap_nil, List.append_nil]
    exact h x List.mem_cons_self
  | x :: y :: rest, h =>
    ((h x List.mem_cons_self).behind hseparator).append
      (Aligned.joined hseparator fun z hz => h z (List.mem_cons_of_mem x hz))

theorem Closed.joined {separator : String} (hseparator : Closed separator) {parts : List String}
    (h : ∀ part ∈ parts, Closed part) : Closed (Text.joined separator parts) := by
  have haligned : Aligned (Text.joined separator (parts.map id)) (parts.flatMap fun _ => [])
      (Text.joined separator (parts.map id)) :=
    Aligned.joined hseparator fun part hpart => (h part hpart).aligned
  rw [List.map_id, List.flatMap_eq_nil_iff.mpr fun _ _ => rfl] at haligned
  exact haligned.closed

/-! ## Names -/

/-- A name, its double quotes doubled, is read up to where it began. -/
theorem after_doubleQuotes (cs : List Char) : Place.name.after (doubleQuotes cs) = .name := by
  induction cs with
  | nil => rfl
  | cons c cs ih =>
    rw [doubleQuotes]
    split <;> rename_i h
    · exact ih
    · rwa [Place.after_cons, Place.next, if_neg h]

theorem count_doubleQuotes (cs : List Char) : Place.name.count (doubleQuotes cs) = 0 := by
  induction cs with
  | nil => rfl
  | cons c cs ih =>
    rw [doubleQuotes]
    split <;> rename_i h
    · rw [Place.count, Place.count, show (Place.name.next '"').next '"' = .name from rfl, ih]
      rfl
    · rw [Place.count, Place.next, if_neg h, ih, Place.isPlaceholder]
      simp

theorem closed_identifier (name : String) : Closed (identifier name) := by
  have htext : (identifier name).toList = '"' :: (doubleQuotes name.toList ++ ['"']) := by
    rw [identifier, String.toList_ofList, List.cons_append]
  rw [Closed, placeholders, htext, Place.after_cons, Place.after_append, Place.count,
    Place.count_append, show Place.code.next '"' = .name from rfl, after_doubleQuotes,
    count_doubleQuotes]
  decide

theorem closed_table (name : String) : Closed (table name) :=
  Closed.joined (by decide) fun _ hpart => by
    obtain ⟨piece, -, rfl⟩ := List.mem_map.mp hpart
    exact closed_identifier piece

theorem closed_qualified (tableAlias column : String) : Closed (qualified tableAlias column) :=
  ((closed_identifier tableAlias).append (by decide)).append (closed_identifier column)

/-- A text without double quotes and question marks. -/
theorem closed_of_forall {text : String} (h : ∀ c ∈ text.toList, c ≠ '"' ∧ c ≠ '?') :
    Closed text := by
  have hchars : ∀ cs : List Char, (∀ c ∈ cs, c ≠ '"' ∧ c ≠ '?') →
      Place.code.after cs = .code ∧ Place.code.count cs = 0 := by
    intro cs
    induction cs with
    | nil => exact fun _ => ⟨rfl, rfl⟩
    | cons c cs ih =>
      intro hcs
      obtain ⟨⟨hquote, hmark⟩, hcs⟩ := List.forall_mem_cons.mp hcs
      have hnext : Place.code.next c = .code := if_neg hquote
      rw [Place.after_cons, Place.count, hnext, Place.isPlaceholder]
      simpa [hmark] using ih hcs
  obtain ⟨hafter, hcount⟩ := hchars text.toList h
  exact ⟨by simp [hafter], hcount⟩

theorem closed_number (n : Nat) : Closed (toString n) :=
  closed_of_forall fun c hc => by
    rw [show toString n = n.repr from rfl, Nat.toList_repr] at hc
    have hdigit : c.isDigit = true := Nat.isDigit_of_mem_toDigits (by decide) (by decide) hc
    constructor <;> rintro rfl <;> exact absurd hdigit (by decide)

end NestedRead.Sql
