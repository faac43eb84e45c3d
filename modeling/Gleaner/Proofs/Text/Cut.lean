import Gleaner.Text.Basic
import Gleaner.Text.Lowercase

namespace Gleaner.Text

section

variable {c : Char} {front rest cs : List Char}

-- A part without the separator ends at the first one behind it.
theorem cut_append (h : c ∉ front) : cut c (front ++ c :: rest) = (front, some rest) := by
  induction front with
  | nil => rw [List.nil_append, cut, if_pos rfl]
  | cons d front ih =>
    obtain ⟨hd, hfront⟩ := not_or.mp (mt List.mem_cons.mpr h)
    rw [List.cons_append, cut, if_neg (Ne.symm hd), ih hfront]

theorem cut_of_notMem (h : c ∉ cs) : cut c cs = (cs, none) := by
  induction cs with
  | nil => rfl
  | cons d cs ih =>
    obtain ⟨hd, hcs⟩ := not_or.mp (mt List.mem_cons.mpr h)
    rw [cut, if_neg (Ne.symm hd), ih hcs]

theorem cutLast_append (h : c ∉ rest) : cutLast c (front ++ c :: rest) = (some front, rest) := by
  have hcut : cut c (front ++ c :: rest).reverse = (rest.reverse, some front.reverse) := by
    rw [List.reverse_append, List.reverse_cons, List.append_assoc]
    exact cut_append (by rwa [List.mem_reverse])
  simp only [cutLast, hcut, Option.map_some, List.reverse_reverse]

theorem cutLast_of_notMem (h : c ∉ cs) : cutLast c cs = (none, cs) := by
  have hcut : cut c cs.reverse = (cs.reverse, none) := cut_of_notMem (by rwa [List.mem_reverse])
  simp only [cutLast, hcut, Option.map_none, List.reverse_reverse]

theorem pieces_eq_splitOn (c : Char) (cs : List Char) : pieces c cs = cs.splitOn c := by
  induction cs with
  | nil => rfl
  | cons d cs ih =>
    rw [pieces, ih, List.splitOn_cons_eq_if_modifyHead]
    simp only [beq_iff_eq]
    split
    · rfl
    · cases hsplit : cs.splitOn c with
      | nil => exact absurd hsplit (List.splitOn_ne_nil c cs)
      | cons piece more => rfl

theorem pieces_intercalate {parts : List (List Char)} (hparts : ∀ part ∈ parts, c ∉ part)
    (hne : parts ≠ []) : pieces c ([c].intercalate parts) = parts := by
  rw [pieces_eq_splitOn, List.splitOn_intercalate c hparts hne]

theorem pieces_of_notMem (h : c ∉ cs) : pieces c cs = [cs] := by
  rw [pieces_eq_splitOn]
  refine List.splitOnP_eq_singleton fun d hd => beq_eq_false_iff_ne.mpr ?_
  rintro rfl
  exact h hd

theorem of_mem_intercalate {parts : List (List Char)} {d : Char} (h : d ∈ [c].intercalate parts) :
    d = c ∨ ∃ part ∈ parts, d ∈ part := by
  induction parts with
  | nil => cases h
  | cons part more ih =>
    cases more with
    | nil =>
      rw [List.intercalate_singleton] at h
      exact .inr ⟨part, List.mem_cons_self .., h⟩
    | cons next more =>
      rw [List.intercalate_cons_cons, List.append_assoc, List.mem_append, List.mem_append] at h
      obtain h | h | h := h
      · exact .inr ⟨part, List.mem_cons_self .., h⟩
      · exact .inl (List.mem_singleton.mp h)
      · obtain heq | ⟨other, hmem, hd⟩ := ih h
        · exact .inl heq
        · exact .inr ⟨other, List.mem_cons_of_mem _ hmem, hd⟩

end

-- Plain characters without capital letters are their own lower-case form.
theorem lowerChars_eq_self {cs : List Char} (h : ∀ c ∈ cs, c.toNat < 128 ∧ c.isUpper = false) :
    lowerChars cs = cs := by
  have hfrom : ∀ before, lowerFrom before cs = cs := by
    induction cs with
    | nil => exact fun _ => rfl
    | cons c cs ih =>
      intro before
      obtain ⟨hplain, hlower⟩ := h c (List.mem_cons_self ..)
      have hc : lowerChar c = c := by
        rw [lowerChar, if_pos hplain]
        exact dif_neg (of_decide_eq_false hlower)
      rw [lowerFrom, if_neg (by omega), if_neg (by omega), hc,
        ih fun d hd => h d (List.mem_cons_of_mem _ hd)]
      rfl
  exact hfrom []

end Gleaner.Text
