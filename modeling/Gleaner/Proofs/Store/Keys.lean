import Gleaner.Proofs.Rehearsal.Tables
import Gleaner.Proofs.Run.Failing
import Gleaner.Proofs.Store.Confinement
import Gleaner.Proofs.Template.Pattern
import Gleaner.Proofs.Validation.Valid

namespace Gleaner

open Pattern TableStore Template

-- A text with exactly one point, and something on both sides of it: a source and a column.
structure Divides (key source column : List Char) : Prop where
  key_eq : key = source ++ '.' :: column
  source_ne : source ≠ []
  column_ne : column ≠ []
  source_free : '.' ∉ source
  column_free : '.' ∉ column

def IsDataKey (key : List Char) : Prop := ∃ source column, Divides key source column

section

variable {key source column : List Char}

theorem takeWhile_point (h : '.' ∉ source) (rest : List Char) :
    (source ++ '.' :: rest).takeWhile (· ≠ '.') = source ∧
      (source ++ '.' :: rest).dropWhile (· ≠ '.') = '.' :: rest := by
  have hends : Ends (fun c => decide (c ≠ '.')) ('.' :: rest) := ends_cons (by decide)
  have hall : ∀ c ∈ source, decide (c ≠ '.') = true := fun c hc => by
    simpa using fun heq : c = '.' => h (heq ▸ hc)
  exact ⟨hends.takeWhile_append hall, hends.dropWhile_append hall⟩

-- A text is divided at its first point.
theorem dropWhile_point {c : Char} (h : key.dropWhile (· ≠ '.') = c :: column) :
    key = key.takeWhile (· ≠ '.') ++ '.' :: column ∧ '.' ∉ key.takeWhile (· ≠ '.') := by
  have hpoint : c = '.' := by simpa using ends_dropWhile _ key c column h
  have hsplit := List.takeWhile_append_dropWhile (p := (· ≠ '.')) (l := key)
  rw [h, hpoint] at hsplit
  exact ⟨hsplit.symm, fun hmem => absurd (List.mem_takeWhile_imp hmem) (by decide)⟩

theorem DataKey.ofChars?_eq_some_iff :
    DataKey.ofChars? key = some (source, column) ↔ Divides key source column := by
  constructor
  · intro h
    unfold ofChars? at h
    dsimp only at h
    split at h
    next c rest hdrop =>
      split at h
      · cases h
      next hparts =>
        cases h
        obtain ⟨hkey, hfree⟩ := dropWhile_point hdrop
        simp only [not_or, List.isEmpty_iff, List.contains_iff_mem] at hparts
        exact ⟨hkey, hparts.1, hparts.2.1, hfree, hparts.2.2⟩
    next => cases h
  · rintro ⟨rfl, hsource, hcolumn, hfree, hfree'⟩
    obtain ⟨htake, hdrop⟩ := takeWhile_point hfree column
    unfold ofChars?
    rw [htake, hdrop]
    simp [hsource, hcolumn, hfree']

theorem isDataKey_eq_isSome (key : List Char) : isDataKey key = (DataKey.ofChars? key).isSome := by
  unfold isDataKey DataKey.ofChars?
  dsimp only
  generalize key.takeWhile (· ≠ '.') = source
  cases key.dropWhile (· ≠ '.') with
  | nil => simp
  | cons c column =>
    rw [List.drop_one, List.tail_cons]
    dsimp only
    cases source.isEmpty <;> cases column.isEmpty <;> cases column.contains '.' <;> rfl

theorem isDataKey_iff : isDataKey key = true ↔ IsDataKey key := by
  rw [isDataKey_eq_isSome, Option.isSome_iff_exists, Prod.exists]
  simp only [DataKey.ofChars?_eq_some_iff, IsDataKey]

end

theorem DataKey.read?_eq_some_iff {key : String} {k : DataKey} :
    DataKey.read? key = some k ↔ Divides key.toList k.source.toList k.column.toList := by
  rw [← ofChars?_eq_some_iff, read?, Option.map_eq_some_iff, Prod.exists]
  constructor
  · rintro ⟨source, column, hkey, rfl⟩
    simpa using hkey
  · intro h
    exact ⟨_, _, h, by simp⟩

theorem DataKey.exists_read? {key : String} :
    IsDataKey key.toList → ∃ k, DataKey.read? key = some k := by
  rintro ⟨source, column, h⟩
  exact ⟨⟨String.ofList source, String.ofList column⟩,
    read?_eq_some_iff.mpr (by simpa using h)⟩

theorem DataKey.read?_eq_none {key : String} (h : ¬IsDataKey key.toList) :
    DataKey.read? key = none := by
  rw [Option.eq_none_iff_forall_ne_some]
  intro k hk
  exact h ⟨_, _, read?_eq_some_iff.mp hk⟩

-- The pattern of a data key, with what counts as its end.
def keyNode (ending : Anchor) : Node :=
  .sequence [.anchor .start, othersNode ['.'], .char '.'.toNat, othersNode ['.'], .anchor ending]

theorem read_dataKeyPattern : Pattern.read dataKeyPattern.toList {} = .ok (keyNode .stop, {}) := by
  cbv

-- The end of a text, or also a place in front of a line feed at the end.
def IsEnd (ending : Anchor) : Prop := ending = .textEnd ∨ ending = .stop

section

variable {text : Array Char} {ending : Anchor}

theorem IsEnd.holdsAt_size (h : IsEnd ending) : holdsAt text {} text.size ending = true := by
  rcases h with rfl | rfl <;> simp [holdsAt]

theorem IsEnd.drop_eq (h : IsEnd ending) {i : Nat} (hi : holdsAt text {} i ending = true) :
    text.toList.drop i = [] ∨ text.toList.drop i = ['\n'] := by
  have hsize : i = text.size → text.toList.drop i = [] := by
    rintro rfl
    exact List.drop_eq_nil_of_le (by simp)
  rcases h with rfl | rfl
  · exact .inl (hsize (by simpa [holdsAt] using hi))
  · have hstop : i = text.size ∨ (i + 1 = text.size ∧ text[i]? = some '\n') := by
      simpa [holdsAt] using hi
    rcases hstop with hlast | ⟨hlast, hfeed⟩
    · exact .inl (hsize hlast)
    · rw [drop_of_getElem? hfeed, List.drop_eq_nil_of_le (by simp [← hlast])]
      exact .inr rfl

theorem keyNode_matcher : (keyNode ending).matcher text {} ⟨0, []⟩ some =
    (othersNode ['.']).matcher text {} ⟨0, []⟩ fun p =>
      (Node.char '.'.toNat).matcher text {} p fun q =>
        (othersNode ['.']).matcher text {} q fun r =>
          if holdsAt text {} r.position ending then some r else none := rfl

theorem contains_point {cs : List Char} : '.' ∉ cs ↔ ∀ c ∈ cs, (!(['.'].contains c)) = true := by
  constructor
  · intro h c hc
    rw [contains_others, List.mem_singleton]
    rintro rfl
    exact h hc
  · intro h hmem
    exact absurd (h _ hmem) (by decide)

theorem keyNode_some (hending : IsEnd ending) {source column : List Char}
    (h : Divides text.toList source column) :
    (keyNode ending).matcher text {} ⟨0, []⟩ some = some ⟨text.size, []⟩ := by
  obtain ⟨hkey, hsource, hcolumn, hfree, hfree'⟩ := h
  have hlength : text.size = source.length + 1 + column.length := by
    have := congrArg List.length hkey
    rw [Array.length_toList, List.length_append, List.length_cons] at this
    omega
  have hpoint : text.toList.drop (0 + source.length) = '.' :: column := drop_add source hkey
  have hback : text.toList.drop (0 + source.length + 1) = column ++ [] := by
    rw [List.append_nil]
    exact drop_add ['.'] hpoint
  rw [keyNode_matcher]
  refine repetition_some (others_matcher _) (p := ⟨0, []⟩) hkey hsource (contains_point.mp hfree)
    (ends_cons (by decide)) ?_
  rw [char_cons hpoint]
  refine repetition_some (others_matcher _) hback hcolumn (contains_point.mp hfree') (ends_nil _) ?_
  have hplace : (((⟨0, []⟩ : Place).shift source.length).shift 1).shift column.length =
      ⟨text.size, []⟩ := by
    rw [Place.shift_shift, Place.shift_shift, Place.shift, hlength, Nat.zero_add, Nat.add_assoc]
  rw [hplace]
  exact if_pos hending.holdsAt_size

theorem keyNode_eq_some (hending : IsEnd ending) {r : Place}
    (h : (keyNode ending).matcher text {} ⟨0, []⟩ some = some r) : IsDataKey text.toList := by
  rw [keyNode_matcher] at h
  obtain ⟨source, rest, hsource, hkey, hfree, h⟩ := repetition_eq_some (others_matcher _) h
  obtain ⟨rest', hpoint, h⟩ := char_eq_some h
  obtain ⟨column, tail, hcolumn, hback, hfree', h⟩ := repetition_eq_some (others_matcher _) h
  have htail : tail = [] ∨ tail = ['\n'] := by
    rw [← drop_add column hback]
    split at h
    next hholds => exact hending.drop_eq hholds
    next => cases h
  have hrest : rest = '.' :: rest' := (drop_add source hkey).symm.trans hpoint
  have hrest' : rest' = column ++ tail := (drop_add ['.'] hpoint).symm.trans hback
  refine ⟨source, column ++ tail, ?_, hsource, by simp [hcolumn], contains_point.mpr hfree, ?_⟩
  · rw [← hrest', ← hrest]
    exact hkey
  · rw [List.mem_append, not_or]
    refine ⟨contains_point.mpr hfree', ?_⟩
    rcases htail with rfl | rfl <;> decide

theorem keyNode_isSome_iff (hending : IsEnd ending) :
    ((keyNode ending).matcher text {} ⟨0, []⟩ some).isSome = true ↔ IsDataKey text.toList := by
  constructor
  · intro h
    obtain ⟨r, hr⟩ := Option.isSome_iff_exists.mp h
    exact keyNode_eq_some hending hr
  · rintro ⟨source, column, h⟩
    rw [keyNode_some hending h]
    rfl

-- The pattern begins at the start of a text, so nothing is found further on.
theorem searchFrom_keyNode (fuel : Nat) {start : Nat} (hstart : 0 < start) :
    searchFrom text (keyNode ending) {} fuel start = none := by
  induction fuel generalizing start with
  | zero => rfl
  | succ fuel ih =>
    have hlater : holdsAt text {} start .start = false := by
      simp [holdsAt, Nat.ne_of_gt hstart]
    have hnone : (keyNode ending).matcher text {} ⟨start, []⟩ some = none :=
      if_neg (by rw [hlater]; exact Bool.false_ne_true)
    rw [searchFrom, hnone]
    exact ih (Nat.succ_pos start)

theorem search_keyNode : Pattern.search text (keyNode ending) {} =
    ((keyNode ending).matcher text {} ⟨0, []⟩ some).map fun p => (0, p) := by
  rw [Pattern.search, searchFrom, searchFrom_keyNode _ Nat.one_pos]
  cases (keyNode ending).matcher text {} ⟨0, []⟩ some <;> rfl

end

theorem readDatum_eq_ok_iff {key : String} {more : List String} :
    readDatum (key :: more) = .ok (.datum key) ↔ IsDataKey key.toList := by
  rw [← isDataKey_iff, readDatum, List.headD_cons]
  split
  next h => simp [h]
  next h => simp [h]

theorem readRandom_ne_datum (arguments : List String) (key : String) :
    readRandom arguments ≠ .ok (.datum key) := by
  unfold readRandom
  dsimp only
  split
  · nofun
  · split <;> nofun

theorem readAddress_ne_datum (arguments : List String) (key : String) :
    readAddress arguments ≠ .ok (.datum key) := by
  unfold readAddress
  split
  · nofun
  · split
    · nofun
    · split <;> nofun

-- The key of a token has been checked.
theorem isDataKey_of_token {o : Template.Occurrence} {key : String}
    (h : o.token = .ok (.datum key)) : IsDataKey key.toList := by
  unfold Template.Occurrence.token at h
  dsimp only at h
  generalize (if o.arguments.isEmpty = true then [] else _) = arguments at h
  split at h
  · unfold readDatum at h
    dsimp only at h
    split at h
    next hkey =>
      cases h
      exact isDataKey_iff.mp hkey
    next => cases h
  · exact absurd h (readRandom_ne_datum _ _)
  · exact absurd h (readAddress_ne_datum _ _)
  · cases h

theorem checkDataKey_eq_valid_iff {key : String} :
    checkDataKey (.text key) = .valid key ↔ IsDataKey key.toList := by
  rw [← isDataKey_iff]
  constructor
  · exact Validation.shapedText_eq_valid
  · intro h
    exact if_pos h

section

variable {σ : Type} {view : σ → Sql.Database} {execute : Sql.Statement → Effect σ (List Row)}
  {sources : List (String × String)} {bound : Option IterationContext}

-- Failures of another kind than that of a key that cannot be divided.
def Failure.IsOther (f : Failure) : Prop := f.kind ≠ "ValueError"

theorem CarriesOut.failsWith (h : CarriesOut view execute) (s : Sql.Statement) :
    FailsWith Failure.IsOther (execute s) := by
  intro w e w' hrun
  have hcarried := h s w
  rw [hrun] at hcarried
  split at hcarried
  · cases hcarried.1
  next e _ =>
    cases hcarried.1
    unfold Failure.IsOther Failure.kind
    cases e <;> simp [Sql.Error.kind, Sql.Error.concernsData]

theorem failsWith_table (source : String) :
    FailsWith Failure.IsOther (table (σ := σ) sources source) := by
  rw [table_eq]
  cases tableOf? sources source with
  | none => exact failsWith_throw (by simp [Failure.IsOther, Failure.kind])
  | some name => exact failsWith_pure name

theorem splitKey_eq {key : String} {k : DataKey} (hk : DataKey.read? key = some k) :
    splitKey (σ := σ) key = pure k := by
  rw [splitKey, hk]

theorem failsWith_setMany (h : CarriesOut view execute) (source : String)
    (values : List (String × Value)) :
    FailsWith Failure.IsOther (TableStore.setMany execute sources bound source values) := by
  unfold TableStore.setMany
  split
  · exact failsWith_pure _
  · refine failsWith_bind (failsWith_table source) fun name => ?_
    cases boundRow? bound source <;>
      exact failsWith_bind (h.failsWith _) fun _ => failsWith_pure _

variable (h : CarriesOut view execute) {key : String} (hkey : IsDataKey key.toList)
include h hkey

theorem failsWith_storeGet : FailsWith Failure.IsOther ((store execute sources bound).get key) := by
  obtain ⟨k, hk⟩ := DataKey.exists_read? hkey
  change FailsWith _ (splitKey key >>= _)
  rw [splitKey_eq hk, pure_bind]
  exact failsWith_bind (failsWith_table k.source) fun name =>
    failsWith_bind (h.failsWith _) fun rows => failsWith_pure _

theorem failsWith_storeSet (value : Value) :
    FailsWith Failure.IsOther ((store execute sources bound).set key value) := by
  obtain ⟨k, hk⟩ := DataKey.exists_read? hkey
  change FailsWith _ (splitKey key >>= _)
  rw [splitKey_eq hk, pure_bind]
  exact failsWith_setMany h k.source _

end

-- The checks of a key before it is used, and what the store does with it.
structure ChecksKey {σ : Type} (execute : Sql.Statement → Effect σ (List Row))
    (sources : List (String × String)) (key : String) : Prop where
  -- A script is validated by a search for the pattern; its end is the end of the text.
  searched : (Pattern.search key.toList.toArray (keyNode .textEnd) {}).isSome = true ↔
    IsDataKey key.toList
  validated : checkDataKey (.text key) = .valid key ↔ IsDataKey key.toList
  -- A token is matched with the pattern; a line feed may follow its end.
  matched : ((keyNode .stop).matcher key.toList.toArray {} ⟨0, []⟩ some).isSome = true ↔
    IsDataKey key.toList
  expanded (more : List String) : readDatum (key :: more) = .ok (.datum key) ↔
    IsDataKey key.toList
  -- The store divides the key at its point.
  divided (k : DataKey) : DataKey.read? key = some k ↔
    Divides key.toList k.source.toList k.column.toList
  used : (∃ v, checkDataKey v = .valid key) ∨ (∃ o : Template.Occurrence, o.token =
      .ok (.datum key)) → ∀ bound,
    FailsWith Failure.IsOther ((store execute sources bound).get key) ∧
    ∀ value, FailsWith Failure.IsOther ((store execute sources bound).set key value)
  refused : ¬IsDataKey key.toList → ∀ bound w,
    (store execute sources bound).get key w = (.error (.dataKey key), w) ∧
    ∀ value, (store execute sources bound).set key value w = (.error (.dataKey key), w)

-- Validation, tokens and the store take the same keys: those with exactly one point and something
-- on both sides of it. So the store never fails to divide a key that one of the others has taken.
theorem dataKey_checks_agree {σ : Type} {view : σ → Sql.Database}
    {execute : Sql.Statement → Effect σ (List Row)} (h : CarriesOut view execute) :
    Pattern.read dataKeyPattern.toList {} = .ok (keyNode .stop, {}) ∧
      ∀ sources key, ChecksKey execute sources key := by
  refine ⟨read_dataKeyPattern, fun sources key => ?_⟩
  exact {
    searched := by
      rw [search_keyNode, Option.isSome_map, keyNode_isSome_iff (.inl rfl)]
    validated := checkDataKey_eq_valid_iff
    matched := keyNode_isSome_iff (.inr rfl)
    expanded := fun more => readDatum_eq_ok_iff
    divided := fun k => DataKey.read?_eq_some_iff
    used := fun htaken bound => by
      have hkey : IsDataKey key.toList := by
        rcases htaken with ⟨v, hv⟩ | ⟨o, ho⟩
        · exact isDataKey_iff.mp (Validation.shapedText_eq_valid hv)
        · exact isDataKey_of_token ho
      exact ⟨failsWith_storeGet h hkey, failsWith_storeSet h hkey⟩
    refused := fun hkey bound w => by
      have hsplit : splitKey (σ := σ) key = throw (.dataKey key) := by
        rw [splitKey, DataKey.read?_eq_none hkey]
      constructor
      · change (splitKey key >>= _) w = _
        rw [hsplit]
        rfl
      · intro value
        change (splitKey key >>= _) w = _
        rw [hsplit]
        rfl }

theorem dataKey_checks_agree_lineFeed :
    CarriesOut Rehearsal.World.database Rehearsal.execute ∧
    checkDataKey (.text "people.name\n") = .valid "people.name\n" ∧
    DataKey.read? "people.name\n" = some ⟨"people", "name\n"⟩ ∧
    FailsWith Failure.IsOther
      ((store Rehearsal.execute [("people", "people")] none).get "people.name\n") := by
  have hchecks := (dataKey_checks_agree Rehearsal.execute_carriesOut).2 [("people", "people")]
    "people.name\n"
  have hkey : Divides "people.name\n".toList "people".toList "name\n".toList :=
    ⟨rfl, by decide, by decide, by decide, by decide⟩
  have hvalid := hchecks.validated.mpr ⟨_, _, hkey⟩
  exact ⟨Rehearsal.execute_carriesOut, hvalid, (hchecks.divided ⟨"people", "name\n"⟩).mpr hkey,
    (hchecks.used (.inl ⟨_, hvalid⟩) none).1⟩

end Gleaner
