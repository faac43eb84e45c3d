import Gleaner.Proofs.Sql.Markup
import Gleaner.Sql.Statement

namespace Gleaner

open Sql

-- Texts that have no null character can be handed to the database.
def NoNull (cs : List Char) : Prop := '\x00' ∉ cs

instance : DecidablePred NoNull := fun cs => inferInstanceAs (Decidable ('\x00' ∉ cs))

namespace NoNull

theorem append {cs ds : List Char} (hc : NoNull cs) (hd : NoNull ds) : NoNull (cs ++ ds) := by
  intro h
  rcases List.mem_append.mp h with h | h
  · exact hc h
  · exact hd h

theorem text_append_iff {s t : String} :
    NoNull (s ++ t).toList ↔ NoNull s.toList ∧ NoNull t.toList := by
  unfold NoNull
  rw [String.toList_append, List.mem_append, not_or]

theorem joined_iff {separator : String} (hs : NoNull separator.toList) {texts : List String} :
    NoNull (Value.joined separator texts).toList ↔ ∀ t ∈ texts, NoNull t.toList := by
  induction texts with
  | nil => exact ⟨fun _ => nofun, fun _ => nofun⟩
  | cons t rest ih =>
    cases rest with
    | nil => simp [Value.joined]
    | cons u rest =>
      rw [Value.joined, text_append_iff, text_append_iff, ih, List.forall_mem_cons (a := t)]
      · simp only [hs, and_true]
      · nofun

theorem joined {separator : String} (hs : NoNull separator.toList) {texts : List String}
    (h : ∀ t ∈ texts, NoNull t.toList) : NoNull (Value.joined separator texts).toList :=
  (joined_iff hs).mpr h

theorem quotedName_iff {name : String} :
    NoNull (quotedName name).toList ↔ NoNull name.toList := by
  unfold quotedName
  split
  · rfl
  · unfold NoNull
    rw [String.toList_ofList, List.mem_append, List.mem_cons, List.mem_flatMap]
    constructor
    · exact fun h hmem => h (.inl (.inr ⟨_, hmem, by simp⟩))
    · rintro h ((hquote | ⟨c, hc, hmem⟩) | hquote)
      · cases hquote
      · split at hmem
        · simp at hmem
        · exact h (List.mem_singleton.mp hmem ▸ hc)
      · simp at hquote

theorem unescape_iff {text : String} :
    NoNull (Markup.unescape text).toList ↔ NoNull text.toList := by
  unfold NoNull
  rw [Markup.unescape, String.toList_ofList, Markup.mem_unescapeChars_iff (by decide)]

theorem escape_iff {text : String} :
    NoNull (Markup.escape text).toList ↔ NoNull text.toList := by
  rw [← unescape_iff, Markup.unescape_escape]

end NoNull

-- A name that stands for itself where it is written into a statement: it has no null character,
-- and it is not a keyword that is written without quotes.
def Sql.IsWritable (name : String) : Prop :=
  NoNull name.toList ∧ ¬(isPlainName name = true ∧ isKeyword name = true)

instance : DecidablePred IsWritable := fun name =>
  inferInstanceAs (Decidable (NoNull name.toList ∧ ¬(_ ∧ _)))

theorem Sql.checkName_eq_ok {name : String} :
    checkName name = .ok () ↔ ¬(isPlainName name = true ∧ isKeyword name = true) := by
  unfold checkName
  rw [← Bool.and_eq_true]
  split
  · next h => exact ⟨nofun, fun hnot => absurd h hnot⟩
  · next h => exact ⟨fun _ => h, fun _ => rfl⟩

theorem Sql.checkNames_eq_ok {names : List String} :
    checkNames names = .ok () ↔ ∀ name ∈ names, checkName name = .ok () := by
  induction names with
  | nil => exact ⟨fun _ => nofun, fun _ => rfl⟩
  | cons name rest ih =>
    rw [List.forall_mem_cons, ← ih, checkNames]
    cases checkName name with
    | error e => exact ⟨nofun, fun h => nomatch h.1⟩
    | ok u => exact ⟨fun h => ⟨rfl, h⟩, fun h => h.2⟩

namespace Sql.Statement

theorem check_eq_ok {s : Statement} :
    s.check = .ok () ↔ NoNull s.text.toList ∧ checkNames s.writtenNames = .ok () := by
  unfold Statement.check NoNull
  by_cases h : '\x00' ∈ s.text.toList
  · rw [if_pos (List.contains_iff_mem.mpr h)]
    exact ⟨nofun, fun hnull => absurd h hnull.1⟩
  · rw [if_neg fun hc => h (List.contains_iff_mem.mp hc)]
    exact ⟨fun hnames => ⟨h, hnames⟩, fun hboth => hboth.2⟩

-- What a statement says can be handed over if its names stand for themselves.
theorem check_first_iff {column table : String} {m : Match} :
    (first column table (some m)).check = .ok () ↔
      IsWritable column ∧ IsWritable table ∧ IsWritable m.column := by
  have hselect : NoNull "SELECT ".toList := by decide
  have hfrom : NoNull " FROM ".toList := by decide
  have hwhere : NoNull " WHERE ".toList := by decide
  have hmark : NoNull " = ?".toList := by decide
  have hlimit : NoNull " LIMIT 1".toList := by decide
  have htext : (first column table (some m)).text = "SELECT " ++ quotedName column ++ " FROM " ++
      quotedName table ++ (" WHERE " ++ quotedName m.column ++ " = ?") ++ " LIMIT 1" := rfl
  have hnames : (first column table (some m)).writtenNames = [column, table, m.column] := rfl
  rw [check_eq_ok, htext, hnames, checkNames_eq_ok]
  simp only [NoNull.text_append_iff, NoNull.quotedName_iff, hselect, hfrom, hwhere, hmark, hlimit,
    true_and, and_true, List.forall_mem_cons, checkName_eq_ok, IsWritable]
  exact ⟨fun ⟨⟨⟨hc, ht⟩, hm⟩, hc', ht', hm', _⟩ => ⟨⟨hc, hc'⟩, ⟨ht, ht'⟩, hm, hm'⟩,
    fun ⟨⟨hc, hc'⟩, ⟨ht, ht'⟩, hm, hm'⟩ => ⟨⟨⟨hc, ht⟩, hm⟩, hc', ht', hm', List.forall_mem_nil _⟩⟩

theorem check_update_iff {table : String} {values : List (String × Value)} {m : Match} :
    (update table values m).check = .ok () ↔
      IsWritable table ∧ (∀ v ∈ values, IsWritable v.1) ∧ IsWritable m.column := by
  have hupdate : NoNull "UPDATE ".toList := by decide
  have hset : NoNull " SET ".toList := by decide
  have hwhere : NoNull " WHERE ".toList := by decide
  have hmark : NoNull " = ?".toList := by decide
  have hcomma : NoNull ", ".toList := by decide
  have htext : (update table values m).text = "UPDATE " ++ quotedName table ++ " SET " ++
      Value.joined ", " ((values.map fun v => quotedName v.1).map (· ++ " = ?")) ++
        (" WHERE " ++ quotedName m.column ++ " = ?") := rfl
  have hnames : (update table values m).writtenNames =
      table :: values.map (·.1) ++ [m.column] := rfl
  rw [check_eq_ok, htext, hnames, checkNames_eq_ok]
  simp only [NoNull.text_append_iff, NoNull.quotedName_iff, NoNull.joined_iff hcomma, hupdate,
    hset, hwhere, hmark, true_and, and_true, List.forall_mem_map, List.cons_append,
    List.forall_mem_cons, List.forall_mem_append, checkName_eq_ok, IsWritable]
  simp only [forall_and]
  exact ⟨fun ⟨⟨⟨ht, hv⟩, hm⟩, ht', hv', hm', _⟩ => ⟨⟨ht, ht'⟩, ⟨hv, hv'⟩, hm, hm'⟩,
    fun ⟨⟨ht, ht'⟩, ⟨hv, hv'⟩, hm, hm'⟩ => ⟨⟨⟨ht, hv⟩, hm⟩, ht', hv', hm', List.forall_mem_nil _⟩⟩

-- So can a listing with a condition, whose text then has no null character either.
theorem check_all_iff {table : String} {filter : Option String} :
    (all table filter).check = .ok () ↔
      IsWritable table ∧ ∀ text, filter = some text → NoNull text.toList := by
  have hselect : NoNull "SELECT * FROM ".toList := by decide
  have hwhere : NoNull " WHERE ".toList := by decide
  have hempty : NoNull "".toList := by decide
  have hnames : (all table filter).writtenNames = [table] := rfl
  have htext : (all table filter).text = Markup.unescape (marked table filter) := rfl
  rw [check_eq_ok, hnames, checkNames_eq_ok, htext, NoNull.unescape_iff, marked]
  cases filter with
  | none =>
    rw [Option.elim_none]
    simp only [NoNull.text_append_iff, NoNull.quotedName_iff, hselect, hempty, true_and, and_true,
      List.forall_mem_singleton, checkName_eq_ok, IsWritable]
    simp
  | some text =>
    rw [Option.elim_some]
    simp only [NoNull.text_append_iff, NoNull.quotedName_iff, hselect, hwhere, true_and,
      List.forall_mem_singleton, checkName_eq_ok, IsWritable, Option.some.injEq, forall_eq']
    exact and_right_comm

end Sql.Statement

end Gleaner
