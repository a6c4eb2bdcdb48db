import Mathlib.Data.List.Basic
import PullFlow.Text.Delimited

/-!
The pieces of a text between occurrences of a delimiter. Put together again with the delimiter
between neighbours they are the text. No piece has the delimiter in it, and a text without it is
one piece.
-/

namespace PullFlow.Text

variable {d : List Char}

theorem piecesFrom_ne_nil (d : List Char) (skip : Nat) (piece cs : List Char) :
    piecesFrom d skip piece cs ≠ [] := by
  fun_induction piecesFrom d skip piece cs <;> simp_all

theorem pieces_ne_nil (d cs : List Char) : pieces d cs ≠ [] := by
  unfold pieces
  split
  · simp
  · exact piecesFrom_ne_nil _ _ _ _

theorem pieces_of_ne_nil (hd : d ≠ []) (cs : List Char) : pieces d cs = piecesFrom d 0 [] cs := by
  rw [pieces, if_neg (by simpa using hd)]

/-- An occurrence at the beginning of a text, of which the first character is told apart. -/
theorem append_drop_of_isPrefixOf {c : Char} {rest : List Char} (hd : d ≠ [])
    (h : d.isPrefixOf (c :: rest) = true) : d ++ rest.drop (d.length - 1) = c :: rest := by
  obtain ⟨after, hafter⟩ := List.isPrefixOf_iff_prefix.mp h
  cases d with
  | nil => exact absurd rfl hd
  | cons first more =>
      obtain ⟨rfl, rfl⟩ := List.cons.inj hafter
      simp

/-- The piece under way and the text that is left, less what belongs to an occurrence. -/
theorem intercalate_piecesFrom (hd : d ≠ []) (skip : Nat) (piece cs : List Char) :
    d.intercalate (piecesFrom d skip piece cs) = piece.reverse ++ cs.drop skip := by
  fun_induction piecesFrom d skip piece cs with
  | case1 skip piece => simp
  | case2 skip piece c rest ih => exact ih
  | case3 piece c rest hoccurs ih =>
      rw [List.intercalate_cons_of_ne_nil (piecesFrom_ne_nil _ _ _ _), ih, List.reverse_nil,
        List.nil_append, List.append_assoc, append_drop_of_isPrefixOf hd hoccurs, List.drop_zero]
  | case4 piece c rest hoccurs ih => simpa using ih

theorem intercalate_pieces (d cs : List Char) : d.intercalate (pieces d cs) = cs := by
  by_cases hd : d = []
  · have hbetween (parts : List (List Char)) :
        ([] : List Char).intercalate parts = parts.flatten := by
      induction parts with
      | nil => rfl
      | cons part parts ih =>
          cases parts with
          | nil => simp
          | cons next parts => simp [List.intercalate_cons_cons, ih]
    simp only [hd, pieces, hbetween, List.isEmpty_nil, if_true]
    simp [← List.flatMap_def]
  · rw [pieces_of_ne_nil hd, intercalate_piecesFrom hd]
    simp

/-- Joining undoes splitting. -/
theorem join_split (d s : String) : join d (split d s) = s := by
  rw [← String.toList_inj, join, String.toList_intercalate, split, List.map_map]
  simpa [Function.comp_def] using intercalate_pieces d.toList s.toList

/-- An occurrence in a text begins before its end. -/
theorem drop_of_infix {x : List Char} (hd : d ≠ []) (h : d <:+: x) :
    ∃ i < x.length, d <+: x.drop i := by
  obtain ⟨before, after, rfl⟩ := h
  have hpos : 0 < d.length := List.length_pos_iff.mpr hd
  refine ⟨before.length, by simp only [List.length_append]; omega, ?_⟩
  rw [List.append_assoc, List.drop_left]
  exact List.prefix_append d after

/-- No occurrence begins in the piece under way, with what follows of the text read on. -/
def Clear (d piece cs : List Char) : Prop :=
  ∀ i < piece.length, ¬ d <+: (piece.reverse ++ cs).drop i

theorem Clear.nil (d cs : List Char) : Clear d [] cs := fun i hi => absurd hi (Nat.not_lt_zero i)

theorem Clear.not_infix {piece cs : List Char} (h : Clear d piece cs) (hd : d ≠ []) :
    ¬ d <:+: piece.reverse := by
  intro hinfix
  obtain ⟨i, hi, hprefix⟩ := drop_of_infix hd hinfix
  rw [List.length_reverse] at hi
  refine h i hi ?_
  rw [List.drop_append_of_le_length (by simpa using Nat.le_of_lt hi)]
  exact hprefix.trans (List.prefix_append _ _)

theorem Clear.next {piece rest : List Char} {c : Char} (h : Clear d piece (c :: rest))
    (hhere : ¬ d.isPrefixOf (c :: rest) = true) : Clear d (c :: piece) rest := by
  intro i hi
  have hsame : (c :: piece).reverse ++ rest = piece.reverse ++ c :: rest := by simp
  rw [hsame]
  obtain hi | rfl := Nat.lt_succ_iff_lt_or_eq.mp hi
  · exact h i hi
  · rw [← List.length_reverse, List.drop_left]
    exact fun hprefix => hhere (List.isPrefixOf_iff_prefix.mpr hprefix)

theorem not_infix_of_mem_piecesFrom (hd : d ≠ []) {skip : Nat} {piece cs x : List Char}
    (hclear : Clear d piece (cs.drop skip)) (hx : x ∈ piecesFrom d skip piece cs) :
    ¬ d <:+: x := by
  fun_induction piecesFrom d skip piece cs with
  | case1 skip piece =>
      rw [List.mem_singleton.mp hx]
      exact hclear.not_infix hd
  | case2 skip piece c rest ih => exact ih hclear hx
  | case3 piece c rest hoccurs ih =>
      obtain rfl | hx := List.mem_cons.mp hx
      · exact hclear.not_infix hd
      · exact ih (.nil d _) hx
  | case4 piece c rest hoccurs ih => exact ih (Clear.next hclear hoccurs) hx

/-- No piece has the delimiter in it. -/
theorem not_infix_of_mem_pieces (hd : d ≠ []) {cs x : List Char} (hx : x ∈ pieces d cs) :
    ¬ d <:+: x := by
  rw [pieces_of_ne_nil hd] at hx
  exact not_infix_of_mem_piecesFrom hd (.nil d _) hx

theorem piecesFrom_of_not_infix {cs : List Char} (h : ¬ d <:+: cs) (piece : List Char) :
    piecesFrom d 0 piece cs = [piece.reverse ++ cs] := by
  induction cs generalizing piece with
  | nil => simp [piecesFrom]
  | cons c rest ih =>
      have hhere : ¬ d.isPrefixOf (c :: rest) = true := fun hprefix =>
        h (List.isPrefixOf_iff_prefix.mp hprefix).isInfix
      rw [piecesFrom, if_neg hhere, ih fun hrest => h (List.infix_cons_iff.mpr (.inr hrest))]
      simp

/-- A text is one piece exactly if the delimiter is not in it. -/
theorem pieces_eq_singleton_iff (hd : d ≠ []) {cs : List Char} :
    pieces d cs = [cs] ↔ ¬ d <:+: cs := by
  constructor
  · intro h
    exact not_infix_of_mem_pieces hd (h ▸ List.mem_singleton_self cs)
  · intro h
    rw [pieces_of_ne_nil hd, piecesFrom_of_not_infix h]
    rfl

/-! Delimiters of one character. -/

theorem infix_char_iff {c : Char} {cs : List Char} : [c] <:+: cs ↔ c ∈ cs := by
  simp [List.IsInfix, List.mem_iff_append, eq_comm]

theorem pieces_char_eq_singleton_iff {c : Char} {cs : List Char} :
    pieces [c] cs = [cs] ↔ c ∉ cs := by
  rw [pieces_eq_singleton_iff (List.cons_ne_nil _ _), infix_char_iff]

theorem piecesFrom_char_append {c : Char} {cs : List Char} (h : c ∉ cs) (piece rest : List Char) :
    piecesFrom [c] 0 piece (cs ++ c :: rest) =
      (piece.reverse ++ cs) :: piecesFrom [c] 0 [] rest := by
  induction cs generalizing piece with
  | nil => simp [piecesFrom]
  | cons first more ih =>
      obtain ⟨hne, hmore⟩ := not_or.mp (mt List.mem_cons.mpr h)
      have hhere : ¬ [c].isPrefixOf (first :: (more ++ c :: rest)) = true := by simp [hne]
      rw [List.cons_append, piecesFrom, if_neg hhere, ih hmore]
      simp

/-- The first piece is what stands before the first delimiter. -/
theorem pieces_char_append {c : Char} {cs : List Char} (h : c ∉ cs) (rest : List Char) :
    pieces [c] (cs ++ c :: rest) = cs :: pieces [c] rest := by
  rw [pieces_of_ne_nil (List.cons_ne_nil _ _), pieces_of_ne_nil (List.cons_ne_nil _ _)]
  exact piecesFrom_char_append h [] rest

end PullFlow.Text
