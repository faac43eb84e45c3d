import Gleaner.Sql.Statement
import Mathlib.Data.List.Forall2
import Mathlib.Data.List.Pairwise
import Mathlib.Data.List.Perm.Basic
import Mathlib.Data.List.Sublists

namespace Gleaner.Sql

open Table

-- Rows in the order of their numbers, of which no two are the same.
def Ordered (rows : List (Int × List Cell)) : Prop := rows.Pairwise fun a b => a.1 < b.1

instance (rows : List (Int × List Cell)) : Decidable (Ordered rows) :=
  inferInstanceAs (Decidable (List.Pairwise _ rows))

theorem insertRow_perm (row : Int × List Cell) (rows : List (Int × List Cell)) :
    (insertRow row rows).Perm (row :: rows) := by
  induction rows with
  | nil => exact .refl _
  | cons r rest ih =>
    rw [insertRow]
    split
    · exact .refl _
    · exact (ih.cons r).trans (.swap row r rest)

theorem sublist_insertRow (row : Int × List Cell) (rows : List (Int × List Cell)) :
    rows.Sublist (insertRow row rows) := by
  induction rows with
  | nil => exact List.nil_sublist _
  | cons r rest ih =>
    rw [insertRow]
    split
    · exact List.sublist_cons_self _ _
    · exact ih.cons_cons r

theorem Ordered.insertRow {row : Int × List Cell} {rows : List (Int × List Cell)}
    (h : Ordered rows) (hn : ∀ r ∈ rows, r.1 ≠ row.1) : Ordered (insertRow row rows) := by
  induction rows with
  | nil => exact List.pairwise_singleton _ _
  | cons r rest ih =>
    obtain ⟨hfirst, hrest⟩ := List.pairwise_cons.mp h
    rw [Table.insertRow]
    split
    · next hlt =>
      refine List.pairwise_cons.mpr ⟨fun a ha => ?_, h⟩
      rcases List.mem_cons.mp ha with rfl | ha
      · exact hlt
      · exact Int.lt_trans hlt (hfirst a ha)
    · next hge =>
      refine List.pairwise_cons.mpr ⟨fun a ha => ?_, ih hrest fun a ha => hn a (.tail _ ha)⟩
      rcases List.mem_cons.mp ((insertRow_perm row rest).mem_iff.mp ha) with rfl | ha
      · have := hn r List.mem_cons_self
        omega
      · exact hfirst a ha

-- A row that takes the number of one that has gone stands where that was.
theorem insertRow_middle {first rest : List (Int × List Cell)} {row : Int × List Cell}
    (h : Ordered (first ++ row :: rest)) (cells : List Cell) :
    insertRow (row.1, cells) (first ++ rest) = first ++ (row.1, cells) :: rest := by
  induction first with
  | nil =>
    cases rest with
    | nil => rfl
    | cons r rest =>
      have hlt := (List.pairwise_cons.mp h).1 r List.mem_cons_self
      rw [List.nil_append, insertRow, if_pos hlt, List.nil_append]
  | cons r first ih =>
    obtain ⟨hfirst, hrest⟩ := List.pairwise_cons.mp h
    have hlt := hfirst row (List.mem_append_right _ List.mem_cons_self)
    rw [List.cons_append, insertRow, if_neg (by simp only; omega), ih hrest, List.cons_append]

theorem filter_middle {first rest : List (Int × List Cell)} {row : Int × List Cell}
    (h : Ordered (first ++ row :: rest)) :
    (first ++ row :: rest).filter (·.1 != row.1) = first ++ rest := by
  obtain ⟨-, hrest, hapart⟩ := List.pairwise_append.mp h
  rw [List.filter_append, List.filter_cons_of_neg (by simp)]
  rw [List.filter_eq_self.mpr fun r hr => ?_, List.filter_eq_self.mpr fun r hr => ?_]
  · have := (List.pairwise_cons.mp hrest).1 r hr
    simp only [bne_iff_ne]
    omega
  · have := hapart r hr row List.mem_cons_self
    simp only [bne_iff_ne]
    omega

theorem Ordered.eq_of_number {rows : List (Int × List Cell)} (h : Ordered rows)
    {a b : Int × List Cell} (ha : a ∈ rows) (hb : b ∈ rows) (he : a.1 = b.1) : a = b := by
  induction rows with
  | nil => cases ha
  | cons r rest ih =>
    obtain ⟨hfirst, hrest⟩ := List.pairwise_cons.mp h
    rcases List.mem_cons.mp ha with hr | har <;> rcases List.mem_cons.mp hb with hr' | hbr
    · rw [hr, hr']
    · have := hfirst b hbr
      rw [hr] at he
      omega
    · have := hfirst a har
      rw [hr'] at he
      omega
    · exact ih hrest har hbr

theorem put_eq_ok {t t' : Table} {others : List (Int × List Cell)} {number : Int}
    {cells : List Cell} (h : t.put others number cells = .ok t') :
    (∀ r ∈ others, r.1 ≠ number) ∧ t' = { t with rows := insertRow (number, cells) others } := by
  unfold put at h
  split at h
  · cases h
  · split at h
    · cases h
    · next hnumber =>
      split at h
      · cases h
      · cases h
        refine ⟨fun r hr he => hnumber ?_, rfl⟩
        exact List.any_eq_true.mpr ⟨r, hr, by simp [he]⟩

-- A row that has come from another one, which may only have changed if it was touched.
def Follows (touched : Int × List Cell → Bool) (new old : Int × List Cell) : Prop :=
  new = old ∨ touched old = true

instance (touched : Int × List Cell → Bool) (new old : Int × List Cell) :
    Decidable (Follows touched new old) := inferInstanceAs (Decidable (_ ∨ _))

instance (touched : Int × List Cell → Bool) : Std.Refl (Follows touched) := ⟨fun _ => .inl rfl⟩

instance (touched : Int × List Cell → Bool) : IsTrans (Int × List Cell) (Follows touched) where
  trans new middle old h h' := by
    rcases h with rfl | h
    · exact h'
    · rcases h' with rfl | h'
      · exact .inr h
      · exact .inr h'

-- The same of a row that keeps its number.
def Stays (touched : Int × List Cell → Bool) (new old : Int × List Cell) : Prop :=
  new.1 = old.1 ∧ Follows touched new old

instance (touched : Int × List Cell → Bool) : Std.Refl (Stays touched) := ⟨fun _ => ⟨rfl, .inl rfl⟩⟩

instance (touched : Int × List Cell → Bool) : IsTrans (Int × List Cell) (Stays touched) where
  trans _ _ _ h h' := ⟨h.1.trans h'.1, trans_of _ h.2 h'.2⟩

-- What may become of the rows of a table when only some of them are touched: the others stay as
-- they are and in their order; and every row comes from one that there was, no two from the same.
structure RowsConfined (touched : Int × List Cell → Bool) (before after : List (Int × List Cell)) :
    Prop where
  untouched : (before.filter fun r => !touched r).Sublist after
  origins : ∃ rows, rows.Perm after ∧ List.SublistForall₂ (Follows touched) rows before

-- The rows that are left when no row gets another number: all of them keep their order.
def InPlace (touched : Int × List Cell → Bool) (before after : List (Int × List Cell)) : Prop :=
  List.SublistForall₂ (Stays touched) after before

-- The same of rows that may get other numbers.
def InOrder (touched : Int × List Cell → Bool) (before after : List (Int × List Cell)) : Prop :=
  List.SublistForall₂ (Follows touched) after before

instance (touched : Int × List Cell → Bool) (before after : List (Int × List Cell)) :
    Decidable (InOrder touched before after) :=
  decidable_of_iff (∃ rows ∈ before.sublists, List.Forall₂ (Follows touched) after rows) <| by
    simp only [InOrder, List.sublistForall₂_iff, List.mem_sublists, and_comm]

section

variable {touched : Int × List Cell → Bool} {a b c : List (Int × List Cell)}

theorem RowsConfined.refl (touched : Int × List Cell → Bool) (a : List (Int × List Cell)) :
    RowsConfined touched a a :=
  ⟨List.filter_sublist, a, .refl a, (List.Sublist.refl a).sublistForall₂⟩

-- What comes from rows that stand in some order comes from them in any other.
theorem exists_perm_of_perm {rows l l' : List (Int × List Cell)}
    {R : Int × List Cell → Int × List Cell → Prop} (h : List.Forall₂ R rows l) (hl : l'.Perm l) :
    ∃ rows', rows'.Perm rows ∧ List.Forall₂ R rows' l' := by
  obtain ⟨rows', hrows, hperm⟩ := List.perm_comp_forall₂ hl h.flip
  exact ⟨rows', hperm, hrows.flip⟩

theorem RowsConfined.trans (h : RowsConfined touched a b) (h' : RowsConfined touched b c) :
    RowsConfined touched a c where
  untouched := by
    have hfilter := h.untouched.filter fun r => !touched r
    rw [List.filter_filter] at hfilter
    simp only [Bool.and_self] at hfilter
    exact hfilter.trans h'.untouched
  origins := by
    obtain ⟨middle, hmiddle, hfirst⟩ := h.origins
    obtain ⟨rows, hrows, hsecond⟩ := h'.origins
    obtain ⟨l, hl, hsub⟩ := List.sublistForall₂_iff.mp hsecond
    obtain ⟨l', hperm, hsub'⟩ := hsub.subperm.trans hmiddle.symm.subperm
    obtain ⟨rows', hrows', hl'⟩ := exists_perm_of_perm hl hperm
    refine ⟨rows', hrows'.trans hrows, ?_⟩
    exact trans_of _ (List.sublistForall₂_iff.mpr ⟨l', hl', hsub'⟩) hfirst

theorem InPlace.trans (h : InPlace touched a b) (h' : InPlace touched b c) :
    InPlace touched a c :=
  trans_of (List.SublistForall₂ (Stays touched)) h' h

-- A touched row that is taken out and put in again with other cells, and maybe another number.
theorem rowsConfined_replace {first rest : List (Int × List Cell)} {row : Int × List Cell}
    (ht : touched row = true) (new : Int × List Cell) :
    RowsConfined touched (first ++ row :: rest) (insertRow new (first ++ rest)) where
  untouched := by
    rw [List.filter_append, List.filter_cons_of_neg (by simp [ht]), ← List.filter_append]
    exact List.filter_sublist.trans (sublist_insertRow _ _)
  origins := by
    refine ⟨first ++ new :: rest,
      List.perm_middle.trans (insertRow_perm new (first ++ rest)).symm, ?_⟩
    refine List.sublistForall₂_iff.mpr ⟨first ++ row :: rest, ?_, List.Sublist.refl _⟩
    exact List.rel_append (List.forall₂_refl first) (.cons (.inr ht) (List.forall₂_refl rest))

theorem inPlace_replace {first rest : List (Int × List Cell)} {row : Int × List Cell}
    (h : Ordered (first ++ row :: rest)) (ht : touched row = true) (cells : List Cell) :
    InPlace touched (first ++ row :: rest) (insertRow (row.1, cells) (first ++ rest)) := by
  rw [insertRow_middle h]
  refine List.sublistForall₂_iff.mpr ⟨first ++ row :: rest, ?_, List.Sublist.refl _⟩
  exact List.rel_append (List.forall₂_refl first) (.cons ⟨rfl, .inr ht⟩ (List.forall₂_refl rest))

end

end Gleaner.Sql
