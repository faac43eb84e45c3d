import Gleaner.Iteration.Plan
import Gleaner.Proofs.Catalog.Records
import Gleaner.Proofs.Script.Kept
import Gleaner.Proofs.Time.Theorems
import Gleaner.Proofs.Where.Theorems
import Gleaner.Proofs.Where.Tree

namespace Gleaner

open Validation

-- What is kept of some data stands for some data when it is read again.
def Restores (v w : Value) : Prop := ∀ ⦃u⦄, Json.encode? v = some u → Json.decode u = .ok w

def RestoresFields (fields others : List (String × Value)) : Prop :=
  ∀ ⦃ws⦄, Json.encodeFields? fields = some ws → Json.decodeFields ws = .ok others

namespace RestoresFields

variable {v w : Value} {key : String} {fields others : List (String × Value)}

theorem nil : RestoresFields [] [] := by
  intro ws hws
  cases hws
  rfl

theorem cons (hv : Restores v w) (hfields : RestoresFields fields others) :
    RestoresFields ((key, v) :: fields) ((key, w) :: others) := by
  intro ws hws
  obtain ⟨u, rest, hu, hrest, rfl⟩ := Json.encodeFields?_cons hws
  rw [Json.decodeFields, hv hu, hfields hrest]
  rfl

end RestoresFields

namespace Restores

variable {v w : Value} {key : String} {fields others : List (String × Value)}

theorem leaf (hv : isLeaf v = true) : Restores v v := by
  intro u hu
  cases v with
  | null | bool | int | text =>
    cases hu
    rfl
  | _ => cases hv

-- An object whose first field is no tag is read as an object.
theorem object (hkey : key ≠ Json.dateTag)
    (h : RestoresFields ((key, v) :: fields) ((key, w) :: others)) :
    Restores (.object ((key, v) :: fields)) (.object ((key, w) :: others)) := by
  intro u hu
  obtain ⟨ws, hws, rfl⟩ := Json.encode?_object hu
  have huntag : Json.untag ((key, w) :: others) = .ok (.object ((key, w) :: others)) :=
    Json.untag_of_ne hkey
  rw [Json.decode_object (h hws), huntag]

theorem list {α : Type} {as : List α} {write rewrite : α → Value}
    (h : ∀ a ∈ as, Restores (write a) (rewrite a)) :
    Restores (.list (as.map write)) (.list (as.map rewrite)) := by
  have hitems : ∀ ws, Json.encodeItems? (as.map write) = some ws →
      Json.decodeItems ws = .ok (as.map rewrite) := by
    induction as with
    | nil =>
      intro ws hws
      cases hws
      rfl
    | cons a as ih =>
      obtain ⟨ha, has⟩ := List.forall_mem_cons.mp h
      intro ws hws
      rw [List.map_cons] at hws
      obtain ⟨u, rest, hu, hrest, rfl⟩ := Json.encodeItems?_cons hws
      rw [Json.decodeItems, ha hu, ih has rest hrest]
      rfl
  intro u hu
  obtain ⟨ws, hws, rfl⟩ := Json.encode?_list hu
  rw [Json.decode, hitems ws hws]
  rfl

end Restores

namespace Scalar

-- The same value, a moment on the UTC clock where it has a place there.
def utc : Scalar → Scalar
  | moment t => moment (t.toUtc?.getD t)
  | s => s

theorem restores (s : Scalar) : Restores s.value s.utc.value := by
  cases s with
  | bool | int | text => exact .leaf rfl
  | float x =>
    intro u hu
    cases hu
    rfl
  | moment t =>
    intro u hu
    rw [value, Json.encode?, Json.taggedMoment?] at hu
    obtain ⟨t', ht', rfl⟩ := Option.map_eq_some_iff.mp hu
    obtain ⟨hshown, hoffset, -, -⟩ := DateTime.toUtc?_eq_some ht'
    have htext : Restores (.text t'.text) (.text t'.text) := .leaf rfl
    have hfields : Json.decodeFields [(Json.dateTag, .text t'.text)] =
        .ok [(Json.dateTag, .text t'.text)] := RestoresFields.cons htext .nil rfl
    rw [Json.decode_object hfields, DateTime.untag_text hshown hoffset, utc, ht', Option.getD_some,
      value]

-- A moment is written on the UTC clock as it is.
theorem written_utc (s : Scalar) : s.utc.written = s.written := by
  cases s with
  | moment t =>
    cases ht : t.toUtc? with
    | none => rw [utc, ht, Option.getD_none]
    | some u =>
      obtain ⟨-, -, -, hu⟩ := DateTime.toUtc?_eq_some ht
      rw [utc, ht, Option.getD_some, written, written, ht, hu]
      rfl
  | _ => rfl

theorem hasInstant_utc (s : Scalar) : s.utc.hasInstant = s.hasInstant := by
  cases s with
  | moment t =>
    cases ht : t.toUtc? with
    | none => rw [utc, ht, Option.getD_none]
    | some u =>
      obtain ⟨-, -, -, hu⟩ := DateTime.toUtc?_eq_some ht
      rw [utc, ht, Option.getD_some, hasInstant, hasInstant, ht, hu]
  | _ => rfl

theorem hasInstant_of_encode {s : Scalar} {u : Value} (h : Json.encode? s.value = some u) :
    s.hasInstant = true := by
  cases s with
  | moment t =>
    rw [value, Json.encode?, Json.taggedMoment?] at h
    obtain ⟨t', ht', -⟩ := Option.map_eq_some_iff.mp h
    rw [hasInstant, ht']
    rfl
  | _ => rfl

end Scalar

namespace Filter

mutual

-- The same filter with other values.
def mapValues (g : Scalar → Scalar) : Filter → Filter
  | compare column comparison value => compare column comparison (g value)
  | member column negated values => member column negated (values.map g)
  | range column negated low high => range column negated (g low) (g high)
  | isNull column negated => isNull column negated
  | all children negated => all (mapAll g children) negated
  | any children negated => any (mapAll g children) negated

def mapAll (g : Scalar → Scalar) : List Filter → List Filter
  | [] => []
  | f :: rest => mapValues g f :: mapAll g rest

end

-- The same filter with its moments on the UTC clock.
def utc (f : Filter) : Filter := f.mapValues Scalar.utc

theorem mapAll_eq_map (g : Scalar → Scalar) (fs : List Filter) :
    mapAll g fs = fs.map (mapValues g) := by
  induction fs with
  | nil => rfl
  | cons f fs ih => rw [mapAll, ih, List.map_cons]

theorem documents_eq_map (fs : List Filter) : documents fs = fs.map document := by
  induction fs with
  | nil => rfl
  | cons f fs ih => rw [documents, ih, List.map_cons]

theorem mapping_compare (column : String) (comparison : Comparison) (value : Scalar) :
    (compare column comparison value).mapping = .object [("column", .text column),
      ("condition", .text comparison.name), ("value", value.value)] := rfl

theorem mapping_member (column : String) (negated : Bool) (values : List Scalar) :
    (member column negated values).mapping = .object [("column", .text column),
      ("condition", .text (if negated then "notIn" else "in")),
      ("value", .list (values.map Scalar.value))] := by
  rw [← toValues_scalars]
  rfl

theorem mapping_range (column : String) (negated : Bool) (low high : Scalar) :
    (range column negated low high).mapping = .object [("column", .text column),
      ("condition", .text (if negated then "notBetween" else "between")),
      ("value", .object [("from", low.value), ("to", high.value)])] := rfl

theorem mapping_isNull (column : String) (negated : Bool) :
    (isNull column negated).mapping = .object [("column", .text column),
      ("condition", .text (if negated then "isNotNull" else "isNull"))] := rfl

theorem mapping_all (children : List Filter) (negated : Bool) :
    (all children negated).mapping =
      .object [("and", .list (children.map mapping)), ("negate", .bool negated)] := by
  have hchildren := Document.toValue_list_map .stored document children
  rw [mapping, document, documents_eq_map]
  exact congrArg (fun v => Value.object [("and", v), ("negate", .bool negated)]) hchildren

theorem mapping_any (children : List Filter) (negated : Bool) :
    (any children negated).mapping =
      .object [("or", .list (children.map mapping)), ("negate", .bool negated)] := by
  have hchildren := Document.toValue_list_map .stored document children
  rw [mapping, document, documents_eq_map]
  exact congrArg (fun v => Value.object [("or", v), ("negate", .bool negated)]) hchildren

-- What holds of the filters on one column, and of a group when it holds of all its members, holds of
-- every filter.
@[elab_as_elim] theorem induction_members {motive : Filter → Prop}
    (compare : ∀ column comparison value, motive (compare column comparison value))
    (member : ∀ column negated values, motive (member column negated values))
    (range : ∀ column negated low high, motive (range column negated low high))
    (isNull : ∀ column negated, motive (isNull column negated))
    (all : ∀ children negated, (∀ g ∈ children, motive g) → motive (all children negated))
    (any : ∀ children negated, (∀ g ∈ children, motive g) → motive (any children negated))
    (f : Filter) : motive f :=
  @Filter.rec motive (fun fs => ∀ g ∈ fs, motive g) compare member range isNull
    (fun children negated => all children negated) (fun children negated => any children negated)
    (List.forall_mem_nil motive) (fun _ _ hg hgs => List.forall_mem_cons.mpr ⟨hg, hgs⟩) f

-- A kept filter stands for the same filter on the UTC clock.
theorem restores (f : Filter) : Restores f.mapping f.utc.mapping := by
  have htext : ∀ s, Restores (.text s) (.text s) := fun _ => .leaf rfl
  have hgroup : ∀ {children : List Filter}, (∀ g ∈ children, Restores g.mapping g.utc.mapping) →
      Restores (.list (children.map mapping))
        (.list ((mapAll Scalar.utc children).map mapping)) := by
    intro children h
    rw [mapAll_eq_map, List.map_map]
    exact .list h
  induction f using induction_members with
  | compare column comparison value =>
    rw [mapping_compare, utc, mapValues, mapping_compare]
    exact .object (by decide) (.cons (htext _) (.cons (htext _) (.cons value.restores .nil)))
  | member column negated values =>
    rw [mapping_member, utc, mapValues, mapping_member, List.map_map]
    have hvalues : Restores (.list (values.map Scalar.value)) _ := .list fun s _ => s.restores
    exact .object (by decide) (.cons (htext _) (.cons (htext _) (.cons hvalues .nil)))
  | range column negated low high =>
    rw [mapping_range, utc, mapValues, mapping_range]
    have hbounds : Restores (.object [("from", low.value), ("to", high.value)]) _ :=
      .object (by decide) (.cons low.restores (.cons high.restores .nil))
    exact .object (by decide) (.cons (htext _) (.cons (htext _) (.cons hbounds .nil)))
  | isNull column negated =>
    rw [utc, mapValues, mapping_isNull]
    exact .object (by decide) (.cons (htext _) (.cons (htext _) .nil))
  | all children negated ih =>
    rw [mapping_all, utc, mapValues, mapping_all]
    exact .object (by decide) (.cons (hgroup ih) (.cons (.leaf rfl) .nil))
  | any children negated ih =>
    rw [mapping_any, utc, mapValues, mapping_any]
    exact .object (by decide) (.cons (hgroup ih) (.cons (.leaf rfl) .nil))

-- The items of a list that is kept can each be kept.
theorem exists_encode_of_mem {items ws : List Value} (h : Json.encodeItems? items = some ws) :
    ∀ v ∈ items, ∃ u, Json.encode? v = some u := by
  intro v hv
  have hmem : Json.encode? v ∈ ws.map some :=
    Json.encodeItems?_map h ▸ List.mem_map_of_mem hv
  obtain ⟨u, -, hu⟩ := List.mem_map.mp hmem
  exact ⟨u, hu.symm⟩

-- A filter can only be kept if its moments have a place on the UTC clock.
theorem hasInstant_of_encode (f : Filter) {u : Value} (h : Json.encode? f.mapping = some u) :
    ∀ s ∈ f.values, s.hasInstant = true := by
  have hgroup : ∀ {children : List Filter} {key : String} {rest ws : List (String × Value)},
      Json.encodeFields? ((key, .list (children.map mapping)) :: rest) = some ws →
      (∀ g ∈ children, ∀ {w}, Json.encode? g.mapping = some w →
        ∀ s ∈ g.values, s.hasInstant = true) →
      ∀ s ∈ valuesOf children, s.hasInstant = true := by
    intro children key rest ws hws hchildren
    obtain ⟨_, _, hlist, -, -⟩ := Json.encodeFields?_cons hws
    obtain ⟨items, hitems, -⟩ := Json.encode?_list hlist
    have hkept := List.forall_mem_map.mp (exists_encode_of_mem hitems)
    clear hws hlist hitems
    induction children with
    | nil => nofun
    | cons g gs ih =>
      obtain ⟨⟨w, hw⟩, hgs⟩ := List.forall_mem_cons.mp hkept
      obtain ⟨hg, hrest⟩ := List.forall_mem_cons.mp hchildren
      exact List.forall_mem_append.mpr ⟨hg hw, ih hrest hgs⟩
  induction f using induction_members generalizing u with
  | compare column comparison value =>
    rw [mapping_compare] at h
    obtain ⟨ws, hws, -⟩ := Json.encode?_object h
    obtain ⟨_, _, -, hws, -⟩ := Json.encodeFields?_cons hws
    obtain ⟨_, _, -, hws, -⟩ := Json.encodeFields?_cons hws
    obtain ⟨_, _, hvalue, -, -⟩ := Json.encodeFields?_cons hws
    exact List.forall_mem_singleton.mpr (Scalar.hasInstant_of_encode hvalue)
  | member column negated values =>
    rw [mapping_member] at h
    obtain ⟨ws, hws, -⟩ := Json.encode?_object h
    obtain ⟨_, _, -, hws, -⟩ := Json.encodeFields?_cons hws
    obtain ⟨_, _, -, hws, -⟩ := Json.encodeFields?_cons hws
    obtain ⟨_, _, hvalues, -, -⟩ := Json.encodeFields?_cons hws
    obtain ⟨items, hitems, -⟩ := Json.encode?_list hvalues
    intro s hs
    obtain ⟨w, hw⟩ := exists_encode_of_mem hitems s.value (List.mem_map_of_mem hs)
    exact Scalar.hasInstant_of_encode hw
  | range column negated low high =>
    rw [mapping_range] at h
    obtain ⟨ws, hws, -⟩ := Json.encode?_object h
    obtain ⟨_, _, -, hws, -⟩ := Json.encodeFields?_cons hws
    obtain ⟨_, _, -, hws, -⟩ := Json.encodeFields?_cons hws
    obtain ⟨_, _, hvalue, -, -⟩ := Json.encodeFields?_cons hws
    obtain ⟨bounds, hbounds, -⟩ := Json.encode?_object hvalue
    obtain ⟨_, _, hlow, hbounds, -⟩ := Json.encodeFields?_cons hbounds
    obtain ⟨_, _, hhigh, -, -⟩ := Json.encodeFields?_cons hbounds
    exact List.forall_mem_cons.mpr ⟨Scalar.hasInstant_of_encode hlow,
      List.forall_mem_singleton.mpr (Scalar.hasInstant_of_encode hhigh)⟩
  | isNull column negated => nofun
  | all children negated ih =>
    rw [mapping_all] at h
    obtain ⟨ws, hws, -⟩ := Json.encode?_object h
    exact hgroup hws fun g hg _ hw => ih g hg hw
  | any children negated ih =>
    rw [mapping_any] at h
    obtain ⟨ws, hws, -⟩ := Json.encode?_object h
    exact hgroup hws fun g hg _ hw => ih g hg hw

-- Of a filter with other values all but the values is the same.
section

variable (g : Scalar → Scalar)

mutual

theorem values_mapValues (f : Filter) : (f.mapValues g).values = f.values.map g := by
  match f with
  | .compare .. | .member .. | .range .. | .isNull .. => rfl
  | .all children _ => exact valuesOf_mapAll children
  | .any children _ => exact valuesOf_mapAll children

theorem valuesOf_mapAll (fs : List Filter) : valuesOf (mapAll g fs) = (valuesOf fs).map g := by
  match fs with
  | [] => rfl
  | f :: rest =>
    rw [mapAll, valuesOf, values_mapValues f, valuesOf_mapAll rest, valuesOf, List.map_append]

end

mutual

theorem columns_mapValues (f : Filter) : (f.mapValues g).columns = f.columns := by
  match f with
  | .compare .. | .member .. | .range .. | .isNull .. => rfl
  | .all children _ => exact columnsOf_mapAll children
  | .any children _ => exact columnsOf_mapAll children

theorem columnsOf_mapAll (fs : List Filter) : columnsOf (mapAll g fs) = columnsOf fs := by
  match fs with
  | [] => rfl
  | f :: rest => rw [mapAll, columnsOf, columns_mapValues f, columnsOf_mapAll rest, columnsOf]

end

theorem isEmpty_mapAll (fs : List Filter) : (mapAll g fs).isEmpty = fs.isEmpty := by
  cases fs <;> rfl

mutual

theorem isFilled_mapValues (f : Filter) : (f.mapValues g).isFilled = f.isFilled := by
  match f with
  | .compare .. | .member .. | .range .. | .isNull .. => rfl
  | .all children _ =>
    rw [mapValues, isFilled, isFilled, isEmpty_mapAll, areFilled_mapAll children]
  | .any children _ =>
    rw [mapValues, isFilled, isFilled, isEmpty_mapAll, areFilled_mapAll children]

theorem areFilled_mapAll (fs : List Filter) : areFilled (mapAll g fs) = areFilled fs := by
  match fs with
  | [] => rfl
  | f :: rest => rw [mapAll, areFilled, isFilled_mapValues f, areFilled_mapAll rest, areFilled]

end

variable {g}

mutual

theorem sql_mapValues (h : ∀ s, (g s).written = s.written) (f : Filter) :
    (f.mapValues g).sql = f.sql := by
  match f with
  | .compare column comparison value => rw [mapValues, sql, sql, h]
  | .member column negated values =>
    have hvalues : (fun s => (g s).written.text) = fun s : Scalar => s.written.text := by
      funext s
      rw [h]
    rw [mapValues, sql, sql, List.map_map]
    exact congrArg (fun texts => column ++ " " ++ (if negated then "NOT IN" else "IN") ++ " (" ++
      Value.joined ", " texts ++ ")") (congrArg (values.map ·) hvalues)
  | .range column negated low high => rw [mapValues, sql, sql, h, h]
  | .isNull column negated => rfl
  | .all children negated => rw [mapValues, sql, sqls_mapAll h children, sql]
  | .any children negated => rw [mapValues, sql, sqls_mapAll h children, sql]

theorem sqls_mapAll (h : ∀ s, (g s).written = s.written) (fs : List Filter) :
    sqls (mapAll g fs) = sqls fs := by
  match fs with
  | [] => rfl
  | f :: rest => rw [mapAll, sqls, sql_mapValues h f, sqls_mapAll h rest, sqls]

end

end

theorem isWellFormed_utc {f : Filter} (h : f.IsWellFormed) : f.utc.IsWellFormed where
  filled := (isFilled_mapValues Scalar.utc f).trans h.filled
  isColumn column hc := h.isColumn column (columns_mapValues Scalar.utc f ▸ hc)

-- A filter and the same filter on the UTC clock have the same text.
theorem compile_utc (f : Filter) : Where.compile f.utc.mapping = Where.compile f.mapping := by
  have hinstants : f.utc.values.all Scalar.hasInstant = f.values.all Scalar.hasInstant := by
    have hsame : Scalar.hasInstant ∘ Scalar.utc = Scalar.hasInstant :=
      funext Scalar.hasInstant_utc
    rw [utc, values_mapValues, List.all_map, hsame]
  rw [compile_mapping, compile_mapping, hinstants, utc, sql_mapValues Scalar.written_utc]

-- A condition is taken again as it is written.
theorem check_leaf {v : Value} {f : Filter} (h : checkLeaf v = .valid f) : check v = .valid f := by
  rw [check, h]
  rfl

section

variable {column : String} (hcolumn : isColumn column.toList = true)

include hcolumn

theorem checkColumn_text : checkColumn (.text column) = .valid column := if_pos hcolumn

theorem check_compare (comparison : Comparison) (value : Scalar) :
    check (compare column comparison value).mapping = .valid (compare column comparison value) := by
  have hread : checkLeaf (compare column comparison value).mapping =
      ((compare · comparison) <$> (checkColumn (.text column)).under (.key "column") <*>
        (Scalar.check value.value).under (.key "value")).under (.key comparison.name) := by
    cases comparison <;> rfl
  refine check_leaf ?_
  rw [hread, checkColumn_text hcolumn, Scalar.check_value]
  rfl

theorem check_member (negated : Bool) (values : List Scalar) :
    check (member column negated values).mapping = .valid (member column negated values) := by
  have hread : checkLeaf (.object [("column", .text column),
        ("condition", .text (if negated then "notIn" else "in")),
        ("value", .list (values.map Scalar.value))]) =
      ((member · negated) <$> (checkColumn (.text column)).under (.key "column") <*>
        (items Scalar.check (.list (values.map Scalar.value))).under (.key "value")).under
          (.key (if negated then "notIn" else "in")) := by
    cases negated <;> rfl
  refine check_leaf ?_
  rw [mapping_member, hread, checkColumn_text hcolumn,
    items_written fun s _ => Scalar.check_value s]
  rfl

theorem check_range (negated : Bool) (low high : Scalar) :
    check (range column negated low high).mapping = .valid (range column negated low high) := by
  have hread : checkLeaf (range column negated low high).mapping =
      ((fun c bounds => range c negated bounds.1 bounds.2) <$>
          (checkColumn (.text column)).under (.key "column")
        <*> (Prod.mk <$> (Scalar.check low.value).under (.key "from") <*>
          (Scalar.check high.value).under (.key "to")).under (.key "value")).under
          (.key (if negated then "notBetween" else "between")) := by
    cases negated <;> rfl
  refine check_leaf ?_
  rw [hread, checkColumn_text hcolumn, Scalar.check_value, Scalar.check_value]
  rfl

theorem check_isNull (negated : Bool) :
    check (isNull column negated).mapping = .valid (isNull column negated) := by
  have hread : checkLeaf (isNull column negated).mapping =
      ((fun c (_ : Unit) => isNull c negated) <$> (checkColumn (.text column)).under (.key "column")
        <*> .valid ()).under (.key (if negated then "isNotNull" else "isNull")) := by
    cases negated <;> rfl
  refine check_leaf ?_
  rw [hread, checkColumn_text hcolumn]
  rfl

end

-- A group is taken again if each of its children is.
theorem nonEmpty_children {children : List Filter} (hne : children ≠ [])
    (h : ∀ f ∈ children, check f.mapping = .valid f) :
    nonEmpty (items check (.list (children.map mapping))) = .valid children := by
  rw [items_written h]
  exact if_neg (by simpa using hne)

section

variable {children : List Filter} (hne : children ≠ []) (negated : Bool)
  (h : ∀ f ∈ children, check f.mapping = .valid f)

include hne h

theorem check_all : check (all children negated).mapping = .valid (all children negated) := by
  rw [mapping_all, check]
  change Checked.firstOf [_, ("AndConditions", (fun fs b (_ : Unit) => all fs b) <$>
    (nonEmpty (items check (.list (children.map mapping)))).under (.key "and") <*>
      .valid negated <*> .valid ()), _] = _
  rw [nonEmpty_children hne h]
  rfl

theorem check_any : check (any children negated).mapping = .valid (any children negated) := by
  rw [mapping_any, check]
  change Checked.firstOf [_, _, ("OrConditions", (fun fs b (_ : Unit) => any fs b) <$>
    (nonEmpty (items check (.list (children.map mapping)))).under (.key "or") <*>
      .valid negated <*> .valid ())] = _
  rw [nonEmpty_children hne h]
  rfl

end

theorem isWellFormed_of_mem {fs : List Filter} (hfilled : areFilled fs = true)
    (hcolumns : ∀ column ∈ columnsOf fs, isColumn column.toList = true) :
    ∀ f ∈ fs, f.IsWellFormed := by
  induction fs with
  | nil => nofun
  | cons f fs ih =>
    rw [areFilled, Bool.and_eq_true] at hfilled
    rw [columnsOf] at hcolumns
    refine List.forall_mem_cons.mpr ⟨⟨hfilled.1, fun c hc => ?_⟩, ih hfilled.2 fun c hc => ?_⟩
    · exact hcolumns c (List.mem_append_left _ hc)
    · exact hcolumns c (List.mem_append_right _ hc)

-- Whatever is well formed is taken again as it is written: each value keeps its kind, and each
-- group is taken for a group of its own kind.
theorem check_mapping {f : Filter} (h : f.IsWellFormed) : check f.mapping = .valid f := by
  induction f using induction_members with
  | compare column comparison value =>
    exact check_compare (h.isColumn column (by simp [columns])) comparison value
  | member column negated values =>
    exact check_member (h.isColumn column (by simp [columns])) negated values
  | range column negated low high =>
    exact check_range (h.isColumn column (by simp [columns])) negated low high
  | isNull column negated => exact check_isNull (h.isColumn column (by simp [columns])) negated
  | all children negated ih =>
    obtain ⟨hne, hfilled⟩ : children ≠ [] ∧ areFilled children = true := by
      simpa [isFilled] using h.filled
    have hchildren := isWellFormed_of_mem hfilled h.isColumn
    exact check_all hne negated fun g hg => ih g hg (hchildren g hg)
  | any children negated ih =>
    obtain ⟨hne, hfilled⟩ : children ≠ [] ∧ areFilled children = true := by
      simpa [isFilled] using h.filled
    have hchildren := isWellFormed_of_mem hfilled h.isColumn
    exact check_any hne negated fun g hg => ih g hg (hchildren g hg)

end Filter

-- A number of at least one, as checks have it.
theorem stable_positive : Stable (fun v => Int.toNat <$> atLeast 1 v) fun n : Nat => .int n := by
  intro v n h
  obtain ⟨m, hm, rfl⟩ := Checked.map_eq_valid h
  have hleast := atLeast_eq_valid hm
  dsimp only
  rw [atLeast_int (by omega)]
  rfl

theorem positive_of_required {fields : List (String × Value)} {key : String} {n : Nat}
    (h : Int.toNat <$> required fields key (atLeast 1) = .valid n) : 1 ≤ n := by
  obtain ⟨m, hm, rfl⟩ := Checked.map_eq_valid h
  obtain ⟨v, hv⟩ := required_eq_valid hm
  have hleast := atLeast_eq_valid hv
  omega

-- Bounds that are taken are positive and in order.
theorem Bounds.check_eq_valid {v : Value} {b : Bounds} (h : Bounds.check v = .valid b) :
    1 ≤ b.start ∧ b.start ≤ b.stop ∧ ∃ fields,
      optional fields "step" none (nullable fun v => Int.toNat <$> atLeast 1 v) =
        .valid b.step := by
  obtain ⟨fields, -, h⟩ := model_eq_valid h
  obtain ⟨_, hparts, hordered⟩ := Checked.andThen_eq_valid h
  split at hordered
  · cases hordered
  cases hordered
  obtain ⟨_, step, htwo, hstep, rfl⟩ := Checked.ap_eq_valid hparts
  obtain ⟨_, stop, hone, hstop, rfl⟩ := Checked.ap_eq_valid htwo
  obtain ⟨start, hstart, rfl⟩ := Checked.map_eq_valid hone
  exact ⟨positive_of_required hstart, by omega, fields, hstep⟩

theorem Bounds.stable : Stable Bounds.check fun b => b.document.toValue .stored := by
  intro v b h
  obtain ⟨hstart, hordered, _, hstep⟩ := check_eq_valid h
  have hstep := (stable_nullable stable_positive nofun).optional rfl hstep
  have hread : Bounds.check (b.document.toValue .stored) =
      (Bounds.mk <$> (Int.toNat <$> (atLeast 1 (.int b.start)).under (.key "start"))
        <*> (Int.toNat <$> (atLeast 1 (.int b.stop)).under (.key "end"))
        <*> (nullable (fun v => Int.toNat <$> atLeast 1 v)
          (writeOptional (fun n : Nat => .int n) b.step)).under (.key "step")).andThen
        fun b => if b.stop < b.start then
          .fault (.refused "Start must be less than or equal to end") else .valid b := by
    obtain ⟨_, _, _ | _⟩ := b <;> rfl
  dsimp only
  rw [hread, atLeast_int (by omega), atLeast_int (by omega), hstep]
  exact if_neg (Nat.not_lt.mpr hordered)

theorem Span.stable : Stable Span.check fun s => s.document.toValue .stored := by
  intro v s h
  obtain ⟨m, hm, h⟩ := Checked.firstOf_eq_valid h
  simp only [List.mem_cons, List.not_mem_nil, or_false] at hm
  rcases hm with rfl | rfl
  · obtain ⟨b, hb, rfl⟩ := Checked.map_eq_valid h
    have hagain := Bounds.stable hb
    change Checked.firstOf
      [("ExecutionRange", bounds <$> Bounds.check (b.document.toValue .stored)), _] = _
    rw [hagain]
    rfl
  · obtain ⟨n, hn, rfl⟩ := Checked.map_eq_valid h
    have hleast := atLeast_eq_valid hn
    have hagain : atLeast 1 (.int n.toNat) = .valid (n.toNat : Int) := atLeast_int (by omega)
    change Checked.firstOf [("ExecutionRange", bounds <$> Bounds.check (.int n.toNat)),
      ("constrained-int", (fun m : Int => upTo m.toNat) <$> atLeast 1 (.int n.toNat))] = _
    rw [hagain]
    rfl

namespace ExecutionIterator

-- The same iterator with the moments of its filter on the UTC clock.
def utc : ExecutionIterator → ExecutionIterator
  | filteredSet source filter => filteredSet source filter.utc
  | it => it

-- The moments that rows are compared with.
def moments : ExecutionIterator → List DateTime
  | filteredSet _ filter => filter.values.filterMap fun
    | .moment t => some t
    | _ => none
  | _ => []

theorem restores (it : ExecutionIterator) :
    Restores (it.document.toValue .stored) (it.utc.document.toValue .stored) := by
  have htext : ∀ s, Restores (.text s) (.text s) := fun _ => .leaf rfl
  have hint : ∀ n : Nat, Restores (.int n) (.int n) := fun _ => .leaf rfl
  have htag : "type" ≠ Json.dateTag := by decide
  cases it with
  | range source identifier span =>
    have hspan : Restores (span.document.toValue .stored) (span.document.toValue .stored) := by
      cases span with
      | upTo n => exact hint n
      | bounds b =>
        obtain ⟨start, stop, step⟩ := b
        have hbounds : ∀ {v}, Restores v v → Restores
            (.object [("start", .int start), ("end", .int stop), ("step", v)])
            (.object [("start", .int start), ("end", .int stop), ("step", v)]) := fun hv =>
          .object (by decide) (.cons (hint start) (.cons (hint stop) (.cons hv .nil)))
        cases step with
        | none => exact hbounds (.leaf rfl)
        | some n => exact hbounds (hint n)
    exact .object htag (.cons (htext _) (.cons (htext _) (.cons (htext _) (.cons hspan .nil))))
  | entireSet source => exact .object htag (.cons (htext _) (.cons (htext _) .nil))
  | filteredSet source filter =>
    exact .object htag (.cons (htext _) (.cons (htext _) (.cons filter.restores .nil)))

-- An iterator that was taken is taken again after its moments have been put on the UTC clock.
theorem check_utc {v : Value} {it : ExecutionIterator} (h : check v = .valid it) :
    check (it.utc.document.toValue .stored) = .valid it.utc := by
  obtain ⟨kind, fields, -, h⟩ := tagged_eq_valid h
  split at h
  · obtain ⟨_, span, htwo, hspan, rfl⟩ := Checked.ap_eq_valid h
    obtain ⟨_, identifier, hone, hidentifier, rfl⟩ := Checked.ap_eq_valid htwo
    obtain ⟨source, hsource, rfl⟩ := Checked.map_eq_valid hone
    change (range <$> (checkSourceName (.text source)).under _ <*>
      (filledText (.text identifier)).under _ <*>
        (Span.check (span.document.toValue .stored)).under _).under _ = _
    rw [stable_sourceName.required hsource, stable_filledText.required hidentifier,
      Span.stable.required hspan]
    rfl
  · obtain ⟨source, hsource, rfl⟩ := Checked.map_eq_valid h
    change (entireSet <$> (checkSourceName (.text source)).under _).under _ = _
    rw [stable_sourceName.required hsource]
    rfl
  · obtain ⟨_, filter, hone, hfilter, rfl⟩ := Checked.ap_eq_valid h
    obtain ⟨source, hsource, rfl⟩ := Checked.map_eq_valid hone
    obtain ⟨u, hu⟩ := required_eq_valid hfilter
    have hformed := Filter.isWellFormed_utc (Filter.check_isWellFormed u hu)
    change (filteredSet <$> (checkSourceName (.text source)).under _ <*>
      (Filter.check filter.utc.mapping).under _).under _ = _
    rw [stable_sourceName.required hsource, Filter.check_mapping hformed]
    rfl

theorem filterSql?_utc (it : ExecutionIterator) : it.utc.filterSql? = it.filterSql? := by
  cases it with
  | filteredSet source filter => exact congrArg (some <$> ·) filter.compile_utc
  | _ => rfl

-- An iterator can only be kept if its moments have a place on the UTC clock.
theorem exists_toUtc?_of_json {it : ExecutionIterator} {kept : Value}
    (h : it.document.json = .ok kept) {t : DateTime} (ht : t ∈ it.moments) :
    ∃ u, t.toUtc? = some u := by
  cases it with
  | filteredSet source filter =>
    obtain ⟨s, hs, hmoment⟩ := List.mem_filterMap.mp ht
    unfold Document.json at h
    split at h
    · next w hw =>
      obtain ⟨ws, hws, -⟩ := Json.encode?_object hw
      obtain ⟨_, _, -, hws, -⟩ := Json.encodeFields?_cons hws
      obtain ⟨_, _, -, hws, -⟩ := Json.encodeFields?_cons hws
      obtain ⟨_, _, hfilter, -, -⟩ := Json.encodeFields?_cons hws
      have hinstant := filter.hasInstant_of_encode hfilter s hs
      cases s with
      | moment u =>
        cases hmoment
        exact Option.isSome_iff_exists.mp hinstant
      | _ => cases hmoment
    · cases h
  | _ => cases ht

theorem document_object (it : ExecutionIterator) :
    ∃ fields, it.document.toValue .stored = .object fields := by
  cases it <;> exact ⟨_, rfl⟩

end ExecutionIterator

-- An iterator that is kept is read again with its moments on the UTC clock.
theorem restoreIterator_json {v : Value} {it : ExecutionIterator} {kept : Value}
    (h : ExecutionIterator.check v = .valid it) (hkept : it.document.json = .ok kept) :
    restoreIterator kept = .ok (some it.utc) := by
  unfold Document.json at hkept
  split at hkept
  · next w hw =>
    cases hkept
    obtain ⟨fields, hfields⟩ := it.document_object
    obtain ⟨ws, -, hws⟩ := Json.encode?_object (hfields ▸ hw)
    have hread : restore kept = .ok (it.utc.document.toValue .stored) := by
      rw [restore, it.restores hw]
      rfl
    have hsome : kept.isNull = false := by
      rw [hws]
      rfl
    rw [restoreIterator, if_neg (by simp [hsome]), hread]
    change some <$> ofChecked (ExecutionIterator.check (it.utc.document.toValue .stored)) = _
    rw [ExecutionIterator.check_utc h]
    rfl
  · cases hkept

theorem checkTimestamp_int {n : Int} (h : 0 ≤ n) : checkTimestamp (.int n) = .valid n.toNat := by
  rw [checkTimestamp, atLeast_int h]
  rfl

-- The fields of a routine as it is shown, each looked up by its name.
theorem RoutineView.check_object (id scraperId scraperName iterator status description schedule
    failureLimit nextRunAt lastRunAt runs failures createdAt updatedAt : Value) :
    RoutineView.check (.object [("id", id), ("scraperId", scraperId), ("scraperName", scraperName),
      ("iterator", iterator), ("status", status), ("description", description),
      ("scheduler", schedule), ("pauseAfterNumberOfFailedExecutions", failureLimit),
      ("nextScheduledExecutionAt", nextRunAt), ("lastExecutionAt", lastRunAt),
      ("previousExecutionsCount", runs), ("failedExecutionsCount", failures),
      ("createdAt", createdAt), ("updatedAt", updatedAt)]) =
    (RoutineView.mk <$> (RoutineDraft.mk <$>
        (Int.toNat <$> (atLeast 1 scraperId).under (.key "scraperId"))
        <*> (nullable ExecutionIterator.check iterator).under (.key "iterator")
        <*> (nullable text description).under (.key "description")
        <*> (Schedule.check schedule).under (.key "scheduler")
        <*> (nullable (fun v => Int.toNat <$> atLeast 1 v) failureLimit).under
          (.key "pauseAfterNumberOfFailedExecutions"))
      <*> (Int.toNat <$> (atLeast 1 id).under (.key "id"))
      <*> (text scraperName).under (.key "scraperName")
      <*> (Status.check status).under (.key "status")
      <*> (nullable checkTimestamp nextRunAt).under (.key "nextScheduledExecutionAt")
      <*> (nullable checkTimestamp lastRunAt).under (.key "lastExecutionAt")
      <*> (checkTimestamp runs).under (.key "previousExecutionsCount")
      <*> (checkTimestamp failures).under (.key "failedExecutionsCount")
      <*> (checkTimestamp createdAt).under (.key "createdAt")
      <*> (checkTimestamp updatedAt).under (.key "updatedAt")) := rfl

-- What an accepted draft holds passes the checks of a routine as it is shown.
theorem RoutineDraft.parts_of_check {v : Value} {draft : RoutineDraft}
    (h : RoutineDraft.check v = .valid draft) :
    1 ≤ draft.scraperId ∧ 0 < draft.schedule.interval ∧
      (∀ n ∈ draft.failureLimit, 1 ≤ n) ∧
      ∀ it ∈ draft.iterator, ∃ u, ExecutionIterator.check u = .valid it := by
  obtain ⟨fields, -, h⟩ := model_eq_valid h
  obtain ⟨_, limit, h₄, hlimit, rfl⟩ := Checked.ap_eq_valid h
  obtain ⟨_, schedule, h₃, hschedule, rfl⟩ := Checked.ap_eq_valid h₄
  obtain ⟨_, description, h₂, -, rfl⟩ := Checked.ap_eq_valid h₃
  obtain ⟨_, iterator, h₁, hiterator, rfl⟩ := Checked.ap_eq_valid h₂
  obtain ⟨scraperId, hscraper, rfl⟩ := Checked.map_eq_valid h₁
  obtain ⟨u, hu⟩ := required_eq_valid hschedule
  refine ⟨positive_of_required hscraper, Schedule.interval_pos hu, ?_, ?_⟩
  · rintro n rfl
    obtain hnone | ⟨w, -, hw⟩ := optionalPart_eq_valid hlimit
    · cases hnone
    · obtain ⟨m, hm, rfl⟩ := Checked.map_eq_valid (nullable_eq_valid hw)
      have hleast := atLeast_eq_valid hm
      omega
  · rintro it rfl
    obtain hnone | ⟨w, -, hw⟩ := optionalPart_eq_valid hiterator
    · cases hnone
    · exact ⟨w, nullable_eq_valid hw⟩

theorem RoutineRecord.assign_iterator {r s : RoutineRecord} {draft : RoutineDraft} {now : Int}
    (h : r.assign draft now = .ok s) :
    draft.iterator.elim (.ok .null) (fun it => it.document.json) = .ok s.iterator := by
  unfold RoutineRecord.assign at h
  cases hit : draft.iterator.elim (.ok .null) fun it => it.document.json with
  | error e =>
    rw [hit] at h
    cases h
  | ok iterator =>
    rw [hit] at h
    obtain ⟨next, -, rfl⟩ := RoutineRecord.reschedule_eq_ok h
    rfl

-- The iterator of a draft as it is read again.
theorem restoreIterator_assign {v : Value} {draft : RoutineDraft}
    (hcheck : RoutineDraft.check v = .valid draft) {r s : RoutineRecord} {now : Int}
    (h : r.assign draft now = .ok s) :
    restoreIterator s.iterator = .ok (draft.iterator.map ExecutionIterator.utc) := by
  have hkept := RoutineRecord.assign_iterator h
  obtain ⟨-, -, -, hiterator⟩ := RoutineDraft.parts_of_check hcheck
  cases hit : draft.iterator with
  | none =>
    rw [hit] at hkept
    rw [← Except.ok.inj hkept]
    rfl
  | some it =>
    rw [hit] at hkept
    obtain ⟨u, hu⟩ := hiterator it hit
    exact restoreIterator_json hu hkept

-- The next run is only reckoned for a status that is known.
theorem exists_status_of_nextRunOf {name : String} {schedule : Value} {now : Int}
    {next : Option Int} (h : nextRunOf (.text name) schedule now = .ok next) :
    ∃ status, Status.check (.text name) = .valid status := by
  have hname : (Value.text name).text?.bind Status.ofName? = Status.ofName? name := rfl
  rw [nextRunOf, hname] at h
  rw [Status.check]
  cases hstatus : Status.ofName? name with
  | none =>
    rw [hstatus] at h
    cases h
  | some status => exact ⟨status, rfl⟩

-- What may be missing passes a check when it is missing, and when it passes the check that is made
-- of it otherwise.
theorem nullable_elim {α β : Type} {check : Value → Checked β} {write : α → Value} {read : α → β}
    {o : Option α} (hwrite : ∀ a, write a ≠ .null)
    (h : ∀ a ∈ o, check (write a) = .valid (read a)) :
    nullable check (o.elim .null write) = .valid (o.map read) := by
  cases o with
  | none => rfl
  | some a =>
    change nullable check (write a) = _
    rw [nullable, h a rfl]
    · rfl
    · exact hwrite a

theorem nullable_timestamp {o : Option Int} (h : ∀ n ∈ o, 0 ≤ n) :
    nullable checkTimestamp (o.elim .null .int) = .valid (o.map Int.toNat) :=
  nullable_elim (by rintro _ ⟨⟩) fun n hn => checkTimestamp_int (h n hn)

theorem nullable_positive {o : Option Nat} (h : ∀ n ∈ o, 1 ≤ n) :
    nullable (fun v => Int.toNat <$> atLeast 1 v)
      ((o.map fun n : Nat => (n : Int)).elim .null .int) = .valid o := by
  have hread : ∀ m ∈ o.map fun n : Nat => (n : Int),
      Int.toNat <$> atLeast 1 (.int m) = .valid m.toNat := by
    intro m hm
    obtain ⟨n, hn, rfl⟩ := Option.map_eq_some_iff.mp hm
    have := h n hn
    rw [atLeast_int (by omega)]
    rfl
  have hsame : (o.map fun n : Nat => (n : Int)).map Int.toNat = o := by
    cases o <;> rfl
  rw [nullable_elim (by rintro _ ⟨⟩) hread, hsame]

theorem nullable_iterator {o : Option ExecutionIterator}
    (h : ∀ it ∈ o, ExecutionIterator.check (it.document.toValue .stored) = .valid it) :
    nullable ExecutionIterator.check (o.elim .null fun it => it.document.toValue .stored) =
      .valid o := by
  have hnull : ∀ it : ExecutionIterator, it.document.toValue .stored ≠ .null := fun it h => by
    obtain ⟨fields, hfields⟩ := it.document_object
    rw [hfields] at h
    cases h
  rw [nullable_elim hnull h, Option.map_id']

-- A routine is shown with what is kept of it, if that passes the checks.
theorem RoutineRecord.view_eq {r : RoutineRecord} {iterator : Option ExecutionIterator}
    {schedule : Schedule} {limit : Option Nat} {status : Status} (hid : 1 ≤ r.id)
    (hscraper : 1 ≤ r.scraperId) (hkept : restoreIterator r.iterator = .ok iterator)
    (hiterator : ∀ it ∈ iterator,
      ExecutionIterator.check (it.document.toValue .stored) = .valid it)
    (hschedule : Schedule.check r.schedule = .valid schedule)
    (hlimit : r.failureLimit = limit.map fun n : Nat => (n : Int)) (hpositive : ∀ n ∈ limit, 1 ≤ n)
    (hstatus : Status.check (.text r.status) = .valid status)
    (hnext : ∀ n ∈ r.nextRunAt, 0 ≤ n) (hlast : ∀ n ∈ r.lastRunAt, 0 ≤ n) (hruns : 0 ≤ r.runs)
    (hfailures : 0 ≤ r.failures) (hcreated : 0 ≤ r.createdAt) (hupdated : 0 ≤ r.updatedAt)
    (scraperName : String) :
    r.view scraperName = .ok ⟨⟨r.scraperId, iterator, r.description, schedule, limit⟩, r.id,
      scraperName, status, r.nextRunAt.map Int.toNat, r.lastRunAt.map Int.toNat, r.runs.toNat,
      r.failures.toNat, r.createdAt.toNat, r.updatedAt.toNat⟩ := by
  have hdescription : nullable text (.ofText? r.description) = .valid r.description := by
    cases r.description <;> rfl
  rw [view, hkept]
  change ofChecked (RoutineView.check (.object [("id", .int r.id), ("scraperId", .int r.scraperId),
    ("scraperName", .text scraperName),
    ("iterator", iterator.elim .null fun it => it.document.toValue .stored),
    ("status", .text r.status), ("description", .ofText? r.description),
    ("scheduler", r.schedule),
    ("pauseAfterNumberOfFailedExecutions", r.failureLimit.elim .null .int),
    ("nextScheduledExecutionAt", r.nextRunAt.elim .null .int),
    ("lastExecutionAt", r.lastRunAt.elim .null .int), ("previousExecutionsCount", .int r.runs),
    ("failedExecutionsCount", .int r.failures), ("createdAt", .int r.createdAt),
    ("updatedAt", .int r.updatedAt)])) = _
  rw [RoutineView.check_object, atLeast_int (by omega), atLeast_int (by omega),
    nullable_iterator hiterator, hdescription, hschedule, hlimit, nullable_positive hpositive,
    hstatus, nullable_timestamp hnext, nullable_timestamp hlast, checkTimestamp_int hruns,
    checkTimestamp_int hfailures, checkTimestamp_int hcreated, checkTimestamp_int hupdated]
  rfl

-- What a routine holds that no draft sets.
structure RoutineRecord.IsSound (r : RoutineRecord) : Prop where
  lastRunAt : ∀ t ∈ r.lastRunAt, 0 ≤ t
  runs : 0 ≤ r.runs
  failures : 0 ≤ r.failures
  createdAt : 0 ≤ r.createdAt

-- A routine that has taken over an accepted draft is shown with all that was handed in; only the
-- moments of its filter are put on the UTC clock, which leaves them the instants they are and the
-- filter its text.
theorem RoutineRecord.view_assign {v : Value} {draft : RoutineDraft}
    (hcheck : RoutineDraft.check v = .valid draft) {r s : RoutineRecord} (hr : r.IsSound)
    {now : Int} (hnow : 0 ≤ now) (h : r.assign draft now = .ok s) {id : Nat} (hid : 1 ≤ id)
    (scraperName : String) :
    ∃ w, ({ s with id } : RoutineRecord).view scraperName = .ok w ∧
      w.toRoutineDraft = { draft with iterator := draft.iterator.map ExecutionIterator.utc } ∧
      restoreIterator s.iterator = .ok w.iterator ∧
      ∀ it ∈ draft.iterator, it.utc.filterSql? = it.filterSql? ∧
        ∀ t ∈ it.moments, ∃ u, t.toUtc? = some u ∧ u.offset = some 0 ∧ u.instant = t.instant := by
  have hrestored := restoreIterator_assign hcheck h
  have hkept := assign_iterator h
  obtain ⟨hscraper, hinterval, hlimit, hiterator⟩ := RoutineDraft.parts_of_check hcheck
  obtain ⟨iterator, next, hnext, rfl⟩ := assign_eq_ok h
  obtain ⟨status, hstatus⟩ := exists_status_of_nextRunOf hnext
  have hlater : ∀ n ∈ next, 0 ≤ n := by
    rintro n rfl
    have := (nextRunOf_eq_some hnext).2
    omega
  have hagain : ∀ it ∈ draft.iterator.map ExecutionIterator.utc,
      ExecutionIterator.check (it.document.toValue .stored) = .valid it := by
    intro it hit
    obtain ⟨given, hgiven, rfl⟩ := Option.map_eq_some_iff.mp hit
    obtain ⟨u, hu⟩ := hiterator given hgiven
    exact ExecutionIterator.check_utc hu
  have hview := view_eq (r := { r with
      id
      scraperId := draft.scraperId
      description := draft.description
      iterator
      schedule := draft.schedule.document.toValue .full
      failureLimit := draft.failureLimit.map fun (n : Nat) => n
      updatedAt := now
      nextRunAt := next }) hid hscraper hrestored hagain (Schedule.check_document hinterval) rfl
    hlimit hstatus hlater hr.lastRunAt hr.runs hr.failures hr.createdAt hnow scraperName
  refine ⟨_, hview, rfl, hrestored, fun it hit => ⟨it.filterSql?_utc, fun t ht => ?_⟩⟩
  rw [Option.mem_def.mp hit] at hkept
  obtain ⟨u, hu⟩ := it.exists_toUtc?_of_json hkept ht
  obtain ⟨-, hoffset, hinstant, -⟩ := DateTime.toUtc?_eq_some hu
  exact ⟨u, hu, hoffset, hinstant⟩

-- A routine over the rows that were seen since noon of a day, in a zone whose clocks are two hours
-- ahead.
def noon : DateTime := ⟨⟨2024, 3, 1⟩, 12, 0, 0, 0, some 7200000000⟩

def sinceNoon : Value :=
  .object [("column", .text "seen"), ("condition", .text "greaterThan"), ("value", .moment noon)]

def sinceNoonFilter : Filter := .compare "seen" .greaterThan (.moment noon)

def noonRoutine : Value :=
  .object [("scraperId", .int 1),
    ("iterator", .object [("type", .text "filtered-set"), ("dataSourceName", .text "items"),
      ("where", sinceNoon)]),
    ("scheduler", .object [("interval", .int 1000), ("startAt", .int 0)])]

def noonDraft : RoutineDraft :=
  ⟨1, some (.filteredSet "items" sinceNoonFilter), none, ⟨1000, 0, none⟩, none⟩

theorem check_sinceNoon : Filter.check sinceNoon = .valid sinceNoonFilter := by
  rw [sinceNoon, Filter.check]
  rfl

theorem check_noonRoutine : RoutineDraft.check noonRoutine = .valid noonDraft := by
  change RoutineDraft.mk <$> _ <*> Checked.under _ (some <$> Checked.under _
    (ExecutionIterator.filteredSet <$> _ <*> Checked.under _ (Filter.check sinceNoon))) <*> _ <*> _
      <*> _ = _
  rw [check_sinceNoon]
  rfl

theorem assign_noonDraft : ∃ s, RoutineRecord.assign { createdAt := 0 } noonDraft 0 = .ok s := by
  refine ⟨_, rfl⟩

-- What is shown of it has the same filter with the moment two hours earlier on the UTC clock.
theorem RoutineRecord.view_noonDraft :
    ∃ s w, RoutineDraft.check noonRoutine = .valid noonDraft ∧
      RoutineRecord.assign { createdAt := 0 } noonDraft 0 = .ok s ∧
      ({ s with id := 1 } : RoutineRecord).view "Shop" = .ok w ∧
      w.toRoutineDraft = { noonDraft with iterator := some (.filteredSet "items"
        (.compare "seen" .greaterThan (.moment ⟨⟨2024, 3, 1⟩, 10, 0, 0, 0, some 0⟩))) } := by
  have hsound : RoutineRecord.IsSound { createdAt := 0 } :=
    ⟨nofun, Int.le_refl 0, Int.le_refl 0, Int.le_refl 0⟩
  obtain ⟨s, hs⟩ := assign_noonDraft
  obtain ⟨w, hw, hdraft, -⟩ := RoutineRecord.view_assign check_noonRoutine hsound (Int.le_refl 0) hs
    (Nat.le_refl 1) "Shop"
  have hutc : noonDraft.iterator.map ExecutionIterator.utc = some (.filteredSet "items"
      (.compare "seen" .greaterThan (.moment ⟨⟨2024, 3, 1⟩, 10, 0, 0, 0, some 0⟩))) := by
    have hnoon : noon.toUtc? = some ⟨⟨2024, 3, 1⟩, 10, 0, 0, 0, some 0⟩ := by decide
    change some (ExecutionIterator.filteredSet "items" (.compare "seen" .greaterThan
      (.moment (noon.toUtc?.getD noon)))) = _
    rw [hnoon]
    rfl
  exact ⟨s, w, check_noonRoutine, hs, hw, hutc ▸ hdraft⟩

end Gleaner