import NestedRead.Text.Pieces

/-!
# Joined texts and the pieces of a text

Texts that are joined by nothing are put one behind the other. A text is what its pieces are when
they are joined again, so no two texts have the same pieces.
-/

set_option autoImplicit false

namespace NestedRead.Text

/-! ## Joining -/

theorem joined_empty_cons (text : String) (rest : List String) :
    joined "" (text :: rest) = text ++ joined "" rest := by
  cases rest with
  | nil => rw [joined, joined, String.append_empty]
  | cons next rest => rw [joined.eq_3 _ _ _ (List.cons_ne_nil next rest), String.append_empty]

theorem joined_empty_append (xs ys : List String) :
    joined "" (xs ++ ys) = joined "" xs ++ joined "" ys := by
  induction xs with
  | nil => rw [List.nil_append, joined, String.empty_append]
  | cons x xs ih =>
    rw [List.cons_append, joined_empty_cons, joined_empty_cons, ih, String.append_assoc]

/-- The first of several texts, and then each of the others behind a separator. -/
theorem joined_cons (separator text : String) (rest : List String) :
    joined separator (text :: rest) = text ++ joined "" (rest.map (separator ++ ·)) := by
  induction rest generalizing text with
  | nil => rw [List.map_nil, joined, joined, String.append_empty]
  | cons next rest ih =>
    rw [joined.eq_3 _ _ _ (List.cons_ne_nil next rest), ih, List.map_cons, joined_empty_cons,
      String.append_assoc, String.append_assoc]

/-! ## Pieces -/

theorem pieces_ne_nil (mark : Char) (cs : List Char) : pieces mark cs ≠ [] := by
  cases cs with
  | nil => exact List.cons_ne_nil _ _
  | cons c cs =>
    rw [pieces]
    split
    · exact List.cons_ne_nil _ _
    · split <;> exact List.cons_ne_nil _ _

/-- A text is what its pieces are with the mark between them. -/
theorem intercalate_pieces (mark : Char) (cs : List Char) :
    [mark].intercalate (pieces mark cs) = cs := by
  induction cs with
  | nil => rfl
  | cons c cs ih =>
    rw [pieces]
    cases hpieces : pieces mark cs with
    | nil => exact absurd hpieces (pieces_ne_nil mark cs)
    | cons piece rest =>
      rw [hpieces] at ih
      split <;> rename_i hc
      · rw [hc, ← ih]
        rfl
      · rw [← ih]
        cases rest <;> rfl

theorem piecesOf_injective (mark : Char) {s t : String} (h : piecesOf mark s = piecesOf mark t) :
    s = t := by
  have hpieces : pieces mark s.toList = pieces mark t.toList :=
    (List.map_inj_right fun _ _ h => String.ofList_inj.mp h).mp h
  rw [← String.toList_inj, ← intercalate_pieces mark s.toList, hpieces, intercalate_pieces]

end NestedRead.Text
