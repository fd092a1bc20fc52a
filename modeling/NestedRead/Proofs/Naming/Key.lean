import NestedRead.Config.Validation
import NestedRead.Query.Layout

/-!
# Keys of columns split where they were joined

The key of a column is the alias, the separator and the field, and a reader cuts it at the first
occurrence of the separator. For that to be the one that was put in, no earlier place may match. An
identifier has underscores only singly and between letters or digits, and a valid separator has two
characters or more and no letter or digit among them: where its first character matches inside the
alias, it matches an underscore, and then its second one meets a letter or digit.

Nothing is asked of the field, so it may be the name of an aggregate or hold the separator itself.
-/

set_option autoImplicit false

namespace NestedRead

/-! ## Separators -/

theorem CharClass.isAlphanum_eq_false {c : Char} (h : (!isAlphanumeric c) = true) :
    c.isAlphanum = false := by
  cases hc : c.isAlphanum with
  | false => rfl
  | true => rw [isAlphanumeric_of_isAlphanum hc] at h; cases h

/-- A valid separator starts with two characters that no identifier has as letters or digits. -/
theorem Config.isSeparator_cases {separator : String} (h : isSeparator separator = true) :
    ∃ c d rest, separator.toList = c :: d :: rest ∧ c.isAlphanum = false ∧
      d.isAlphanum = false := by
  rw [isSeparator, Bool.and_eq_true, decide_eq_true_eq, ← String.length_toList] at h
  obtain ⟨hlen, hall⟩ := h
  match hs : separator.toList, hlen with
  | [], hlen | [_], hlen => simp at hlen
  | c :: d :: rest, _ =>
    rw [hs, List.all_cons, List.all_cons, Bool.and_eq_true, Bool.and_eq_true] at hall
    exact ⟨c, d, rest, rfl, CharClass.isAlphanum_eq_false hall.1,
      CharClass.isAlphanum_eq_false hall.2.1⟩

/-! ## Cutting -/

namespace Text

theorem cut?_mark_append {c : Char} {cs after : List Char} :
    cut? (c :: cs) (c :: cs ++ after) = some ([], after) := by
  rw [List.cons_append, cut?, if_pos]
  · simp
  · simp

/-- What is cut is put together again with the mark between the parts. -/
theorem eq_append_of_cut? {mark : List Char} : ∀ {text before after : List Char},
    cut? mark text = some (before, after) → text = before ++ mark ++ after
  | [], before, after, h => by
    rw [cut?] at h
    split at h
    · rename_i hmark
      cases h
      simpa using hmark
    · cases h
  | c :: cs, before, after, h => by
    rw [cut?] at h
    split at h
    · rename_i hprefix
      cases h
      rw [List.nil_append]
      exact (List.prefix_iff_eq_append.mp (List.isPrefixOf_iff_prefix.mp hprefix)).symm
    · obtain ⟨⟨found, _⟩, hcut, h⟩ := Option.map_eq_some_iff.mp h
      cases h
      rw [eq_append_of_cut? hcut]
      simp

section continues

variable {c d : Char} {rest : List Char}

/-- What continues an identifier goes on like one behind each of its characters. -/
theorem exists_continues_tail {x : Char} {name : List Char} {afterUnderscore : Bool}
    (h : Identifier.continues afterUnderscore (x :: name) = true) :
    ∃ u, Identifier.continues u name = true := by
  rw [Identifier.continues] at h
  split at h
  · exact ⟨false, h⟩
  · split at h
    · exact ⟨true, h⟩
    · cases h

/-- A mark whose first two characters are no letters or digits does not start where an identifier
goes on: a letter or digit is not its first character, and an underscore has a letter or digit
behind it, which is not its second one. -/
theorem isPrefixOf_of_continues (hc : c.isAlphanum = false) (hd : d.isAlphanum = false) {x : Char}
    {name : List Char} {afterUnderscore : Bool}
    (h : Identifier.continues afterUnderscore (x :: name) = true) (after : List Char) :
    (c :: d :: rest).isPrefixOf (x :: (name ++ after)) = false := by
  rw [Identifier.continues] at h
  split at h
  · rename_i hx
    have : (c == x) = false := by
      rw [beq_eq_false_iff_ne]; rintro rfl; rw [hc] at hx; cases hx
    simp [List.isPrefixOf, this]
  · split at h
    · cases name with
      | nil => simp [Identifier.continues] at h
      | cons y name =>
        have hy : y.isAlphanum = true := by
          rw [Identifier.continues] at h
          split at h
          · assumption
          · simp at h
        have : (d == y) = false := by
          rw [beq_eq_false_iff_ne]; rintro rfl; rw [hd] at hy; cases hy
        simp [List.isPrefixOf, this]
    · cases h

/-- Such a mark is found behind an identifier and not before. -/
theorem cut?_of_continues (hc : c.isAlphanum = false) (hd : d.isAlphanum = false)
    {after : List Char} : ∀ {name : List Char} {afterUnderscore : Bool},
      Identifier.continues afterUnderscore name = true →
      cut? (c :: d :: rest) (name ++ (c :: d :: rest ++ after)) = some (name, after)
  | [], _, _ => cut?_mark_append
  | x :: name, afterUnderscore, h => by
    obtain ⟨u, hu⟩ := exists_continues_tail h
    rw [List.cons_append, cut?, isPrefixOf_of_continues hc hd h, cut?_of_continues hc hd hu]
    rfl

/-- Nor is it found in an identifier alone. -/
theorem cut?_eq_none_of_continues (hc : c.isAlphanum = false) (hd : d.isAlphanum = false) :
    ∀ {name : List Char} {afterUnderscore : Bool},
      Identifier.continues afterUnderscore name = true → cut? (c :: d :: rest) name = none
  | [], _, _ => rfl
  | x :: name, afterUnderscore, h => by
    obtain ⟨u, hu⟩ := exists_continues_tail h
    have hpre : (c :: d :: rest).isPrefixOf (x :: (name ++ [])) = false :=
      isPrefixOf_of_continues hc hd h []
    rw [List.append_nil] at hpre
    rw [cut?, hpre, cut?_eq_none_of_continues hc hd hu]
    rfl

end continues

end Text

/-! ## Keys -/

theorem Identifier.continues_of_isPlain {name : String} (h : isPlain name = true) :
    continues false name.toList = true := by
  unfold isPlain at h
  cases hs : name.toList with
  | nil => rw [hs] at h; cases h
  | cons c cs =>
    rw [hs, isPlainChars, Bool.and_eq_true] at h
    rw [continues, if_pos (by simp [Char.isAlphanum, h.1])]
    exact h.2

/-- A joined key is cut into the alias and the field that it was joined from. -/
theorem Text.cutAt?_columnKey {separator tableAlias : String} (field : String)
    (hsep : Config.isSeparator separator = true) (halias : Identifier.isPlain tableAlias = true) :
    cutAt? separator (columnKey tableAlias separator field) = some (tableAlias, field) := by
  obtain ⟨c, d, rest, hs, hc, hd⟩ := Config.isSeparator_cases hsep
  rw [cutAt?, columnKey, String.toList_append, String.toList_append, hs, List.append_assoc,
    cut?_of_continues hc hd (Identifier.continues_of_isPlain halias)]
  simp

/-- A key that is cut is the one joined from its parts. -/
theorem Text.eq_columnKey_of_cutAt? {separator key tableAlias field : String}
    (h : cutAt? separator key = some (tableAlias, field)) :
    key = columnKey tableAlias separator field := by
  obtain ⟨⟨before, after⟩, hcut, h⟩ := Option.map_eq_some_iff.mp h
  cases h
  rw [← String.toList_inj, columnKey]
  simpa using eq_append_of_cut? hcut

/-- Keys under one separator tell alias and field apart. -/
theorem columnKey_inj {separator a b f g : String} (hsep : Config.isSeparator separator = true)
    (ha : Identifier.isPlain a = true) (hb : Identifier.isPlain b = true) :
    columnKey a separator f = columnKey b separator g ↔ a = b ∧ f = g := by
  constructor
  · intro h
    have hcut := Text.cutAt?_columnKey f hsep ha
    rw [h, Text.cutAt?_columnKey g hsep hb] at hcut
    simpa [eq_comm] using hcut
  · rintro ⟨rfl, rfl⟩
    rfl

/-- An identifier is never the name of an aggregate. -/
theorem Text.cutAt?_aggregateMark {name : String} (h : Identifier.isPlain name = true) :
    cutAt? aggregateMark name = none := by
  have hmark : aggregateMark.toList = ['_', '_'] := by decide
  rw [cutAt?, hmark, cut?_eq_none_of_continues (by decide) (by decide)
    (Identifier.continues_of_isPlain h)]
  rfl

/-! ## Keys of a layout -/

namespace Layout

/-- **Splitting undoes joining.** Under a valid separator a key is split into an identifier and a
field exactly when it was joined from them, whatever the field is, so keys that are equal were
joined from the same alias and the same field. -/
theorem splits_as_joined (layout : Layout) (hsep : Config.isSeparator layout.separator = true) :
    (∀ key tableAlias field, Identifier.isPlain tableAlias = true →
      (layout.split? key = some (tableAlias, field) ↔
        key = tableAlias ++ layout.separator ++ field)) ∧
    ∀ a b f g, Identifier.isPlain a = true → Identifier.isPlain b = true →
      (columnKey a layout.separator f = columnKey b layout.separator g ↔ a = b ∧ f = g) := by
  constructor
  · intro key tableAlias field halias
    constructor
    · intro hsplit
      exact Text.eq_columnKey_of_cutAt? hsplit
    · rintro rfl
      exact Text.cutAt?_columnKey field hsep halias
  · intro a b f g ha hb
    exact columnKey_inj hsep ha hb

/-- An alias with an underscore in it, and a field that starts with one and holds the separator. -/
theorem splits_as_joined_underscores :
    Config.isSeparator "__" = true ∧ Identifier.isPlain "Book_2" = true ∧
    (Layout.mk "__" []).split? "Book_2___price__sum" = some ("Book_2", "_price__sum") ∧
    columnKey "Book_2" "__" "_price__sum" ≠ columnKey "Book" "__" "2___price__sum" := by
  have hsep : Config.isSeparator "__" = true := by decide +kernel
  have hnumbered : Identifier.isPlain "Book_2" = true := by decide
  obtain ⟨hsplit, hjoin⟩ := splits_as_joined (Layout.mk "__" []) hsep
  refine ⟨hsep, hnumbered, (hsplit _ _ _ hnumbered).mpr (by decide), fun h => ?_⟩
  exact absurd ((hjoin _ _ _ _ hnumbered (by decide)).mp h).1 (by decide)

/-- A single underscore is no separator: it would be found inside of an alias. -/
example : (Layout.mk "_" []).split? "Book_2_title" = some ("Book", "2_title") := by decide

end Layout
end NestedRead
