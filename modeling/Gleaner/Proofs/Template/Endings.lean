import Mathlib.Data.Finite.Prod
import Mathlib.Data.List.Nodup
import Mathlib.Data.Set.Finite.Basic
import Gleaner.Proofs.Template.Traced
import Gleaner.Rehearsal.KeyedStore
import Gleaner.Rehearsal.ScriptedPages

namespace Gleaner

variable {σ α β : Type}

-- Work in a world of a kind that leaves a world of that kind and gives only what is good.
def Effect.Gives (holds : σ → Prop) (good : α → Prop) (work : Effect σ α) : Prop :=
  ∀ world, holds world → holds (work world).2 ∧
    match (work world).1 with
    | .ok a => good a
    | .error e => e ≠ .unfinished

section

variable {holds : σ → Prop} {good : α → Prop} {fine : β → Prop}

theorem gives_pure {a : α} (h : good a) : Effect.Gives holds good (pure a) :=
  fun _ hworld => ⟨hworld, h⟩

theorem gives_throw {e : Failure} (h : e ≠ .unfinished) :
    Effect.Gives holds good (throw e : Effect σ α) :=
  fun _ hworld => ⟨hworld, h⟩

theorem gives_bind {work : Effect σ α} {next : α → Effect σ β} (h : work.Gives holds good)
    (hnext : ∀ a, good a → (next a).Gives holds fine) : (work >>= next).Gives holds fine := by
  intro world hworld
  obtain ⟨hkept, hgood⟩ := h world hworld
  rcases hw : work world with ⟨e | a, after⟩
  · rw [hw] at hkept hgood
    rw [Effect.bind_error hw]
    exact ⟨hkept, hgood⟩
  · rw [hw] at hkept hgood
    rw [Effect.bind_ok hw]
    exact hnext a hgood after hkept

theorem gives_lift {work : StateM σ α}
    (h : ∀ world, holds world → holds (work world).2 ∧ good (work world).1) :
    Effect.Gives holds good (monadLift work) := by
  intro world hworld
  rw [Effect.lift_apply]
  exact h world hworld

theorem gives_ofExcept {ε : Type} {cause : ε → Failure} {result : Except ε α}
    (hcause : ∀ e, cause e ≠ .unfinished) (h : ∀ a, result = .ok a → good a) :
    Effect.Gives holds good (Effect.ofExcept cause result) := by
  cases result with
  | ok a => exact gives_pure (h a rfl)
  | error e => exact gives_throw (hcause e)

end

namespace Template

-- The tokens of a text are expanded with data that is given as a map from keys to texts, and with
-- the addresses of pages, as long as something holds of the world. Reading a datum may fail.
structure Context.Reads (context : Context σ) (data : List (String × String))
    (urls : Nat → Option String) (holds : σ → Prop) : Prop where
  datum : ∀ key, (context.datum key).Gives holds (· = ((data.lookup key).map .text).getD .null)
  address : ∀ page, (addressOf context page).Gives holds (· = urls page)
  draw : ∀ world, holds world → holds (context.draw world).2 ∧ (context.draw world).1.isAlphanum
  warn : ∀ message world, holds world → holds (context.warn message world).2

-- The data, and what can be asked of the addresses.
def Held (data : List (String × String)) (urls : Nat → Option String) : Set String :=
  {value | (∃ key, data.lookup key = some value) ∨
    ∃ page address property, urls page = some address ∧ Url.property address property = .ok value}

theorem held_finite (data : List (String × String)) {urls : Nat → Option String}
    (h : (Set.range urls).Finite) : (Held data urls).Finite := by
  have hdata : {value | ∃ key, data.lookup key = some value}.Finite := by
    refine (List.finite_toSet (data.map (·.2))).subset ?_
    rintro value ⟨key, hkey⟩
    obtain ⟨front, back, rfl, -⟩ := List.lookup_eq_some_iff.mp hkey
    simp
  have hpages : {value | ∃ page address property, urls page = some address ∧
      Url.property address property = .ok value}.Finite := by
    let text : Option String × Url.Property → String := fun q =>
      ((q.1.bind fun address => (Url.property address q.2).toOption)).getD ""
    refine ((h.prod (List.finite_toSet Url.Property.all)).image text).subset ?_
    rintro value ⟨page, address, property, hpage, hvalue⟩
    have hall : property ∈ Url.Property.all := by cases property <;> decide
    refine ⟨(some address, property), ⟨⟨page, hpage⟩, hall⟩, ?_⟩
    simp [text, hvalue, Except.toOption]
  exact hdata.union hpages

section

variable {context : Context σ} {data : List (String × String)} {urls : Nat → Option String}
  {holds : σ → Prop}

theorem Context.Reads.drawText (h : context.Reads data urls holds) (length : Nat) :
    Effect.Gives holds (fun drawn => '{' ∉ drawn) (monadLift (drawText context length)) := by
  refine gives_lift fun world hworld => ?_
  induction length generalizing world with
  | zero => exact ⟨hworld, List.not_mem_nil⟩
  | succ length ih =>
    obtain ⟨hkept, hdrawn⟩ := h.draw world hworld
    obtain ⟨hlast, hrest⟩ := ih _ hkept
    refine ⟨hlast, fun hbrace => ?_⟩
    rcases List.mem_cons.mp hbrace with hbrace | hbrace
    · rw [← hbrace] at hdrawn
      exact absurd hdrawn (by decide)
    · exact hrest hbrace

-- What takes the place of a token has no opening brace, or is held.
theorem Context.Reads.value (h : context.Reads data urls holds) (o : Occurrence) :
    (o.value context).Gives holds fun value => '{' ∈ value.toList → value ∈ Held data urls := by
  have hempty : '{' ∈ "".toList → "" ∈ Held data urls := fun hbrace => absurd hbrace (by decide)
  have hwarn : ∀ message, Effect.Gives holds (fun _ => True) (monadLift (context.warn message)) :=
    fun message => gives_lift fun world hworld => ⟨h.warn message world hworld, trivial⟩
  have haddress : ∀ property page,
      (addressOf context page >>= addressText context property page).Gives holds fun value =>
        '{' ∈ value.toList → value ∈ Held data urls := by
    intro property page
    refine gives_bind (h.address page) fun address haddress => ?_
    unfold addressText
    split
    · exact gives_bind (hwarn _) fun _ _ => gives_pure hempty
    · exact gives_bind (hwarn _) fun _ _ => gives_pure hempty
    · refine gives_ofExcept (by rintro e ⟨⟩) fun value hvalue _ => ?_
      exact .inr ⟨page, _, property, haddress.symm, hvalue⟩
  refine gives_bind (gives_ofExcept (by rintro e ⟨⟩) fun _ _ => trivial) fun token _ => ?_
  cases token with
  | datum key =>
    refine gives_bind (h.datum key) fun v hv => ?_
    subst hv
    cases hlookup : data.lookup key with
    | none => exact gives_pure hempty
    | some text => exact gives_pure fun _ => .inl ⟨key, hlookup⟩
  | random length =>
    refine gives_bind (h.drawText length) fun drawn hdrawn => gives_pure fun hbrace => ?_
    rw [String.toList_ofList] at hbrace
    exact absurd hbrace hdrawn
  | address property page unreadable =>
    cases unreadable with
    | none => exact haddress property page
    | some shown => exact gives_bind (hwarn _) fun _ _ => haddress property page

-- Every brace of a text came with values that are held, none of them twice.
def Layered (held : Set String) (t : Traced) : Prop :=
  ∀ c ∈ t, c.1 = '{' → c.2.Nodup ∧ ∀ value ∈ c.2, value ∈ held

theorem Layered.put {held : Set String} {t : Traced} (h : Layered held t) {o : Occurrence}
    (hf : first? (plain t) = some o) {value : String}
    (hheld : '{' ∈ value.toList → value ∈ held) (hnew : value ∉ around t o) :
    Layered held (put t o value) := by
  intro c hc hbrace
  rcases mem_put hf hc with hc | ⟨hmem, haround⟩
  · exact h c hc hbrace
  · obtain ⟨hnodup, hall⟩ := h _ (brace_mem hf) rfl
    rw [haround]
    refine ⟨List.nodup_cons.mpr ⟨hnew, hnodup⟩, fun v hv => ?_⟩
    rcases List.mem_cons.mp hv with rfl | hv
    · exact hheld (hbrace ▸ hmem)
    · exact hall v hv

-- As long as no value comes to stand in itself, a token never opens in more values than are held.
theorem Layered.around_length_le {held : Finset String}
    (hvalue : ∀ o : Occurrence, (o.value context).Gives holds
      fun value => '{' ∈ value.toList → value ∈ held)
    {fuel : Nat} {t : Traced} {world : σ} (h : Layered held t) (hworld : holds world)
    (hnew : ∀ r ∈ replacements context fuel t world, r.value ∉ r.around) :
    ∀ r ∈ replacements context fuel t world, r.around.length ≤ held.card := by
  induction fuel generalizing t world with
  | zero => simp [replacements]
  | succ fuel ih =>
    rcases hf : first? (plain t) with _ | o
    · simp [replacements_of_none hf]
    · obtain ⟨hkept, hgood⟩ := hvalue o world hworld
      rcases hv : o.value context world with ⟨e | value, after⟩
      · simp [replacements_of_error hf hv]
      · rw [hv] at hkept hgood
        rw [replacements_of_ok hf hv, List.forall_mem_cons] at hnew ⊢
        obtain ⟨hhead, htail⟩ := hnew
        refine ⟨?_, ih (h.put hf hgood hhead) hkept htail⟩
        obtain ⟨hnodup, hall⟩ := h _ (brace_mem hf) rfl
        rw [← List.toFinset_card_of_nodup hnodup]
        exact Finset.card_le_card fun v hv => hall v (List.mem_toFinset.mp hv)

-- A loop that is not cut off gives a result or fails with what a token failed with.
theorem expandChars_ne_unfinished {good : String → Prop}
    (hvalue : ∀ o : Occurrence, (o.value context).Gives holds good) {fuel : Nat} {t : Traced}
    {world : σ} (hworld : holds world) (h : (replacements context fuel t world).length < fuel) :
    (expandChars context fuel (plain t) world).1 ≠ .error .unfinished := by
  induction fuel generalizing t world with
  | zero => cases h
  | succ fuel ih =>
    rcases hf : first? (plain t) with _ | o
    · rw [expandChars_of_none hf]
      rintro ⟨⟩
    · obtain ⟨hkept, hgood⟩ := hvalue o world hworld
      rcases hv : o.value context world with ⟨e | value, after⟩
      · rw [hv] at hgood
        rw [expandChars_of_error hf hv]
        exact fun he => hgood (Except.error.inj he)
      · rw [hv] at hkept
        rw [replacements_of_ok hf hv, List.length_cons, Nat.succ_lt_succ_iff] at h
        rw [expandChars_of_ok hf hv]
        exact ih hkept h

theorem ends_iff_bounded {good : String → Prop}
    (hvalue : ∀ o : Occurrence, (o.value context).Gives holds good) (text : List Char) {world : σ}
    (hworld : holds world) : Ends context text world ↔
      ∃ rounds, ∀ fuel, (replacements context fuel (given text) world).length ≤ rounds := by
  constructor
  · rintro ⟨rounds, outcome, hend, hsame⟩
    have hlt : (replacements context (rounds + 1) (given text) world).length < rounds + 1 := by
      refine lt_of_le_of_ne (replacements_length_le _ _ _) fun hfull => hend ?_
      have hcut := expandChars_of_full hfull
      rwa [plain_given, hsame _ (Nat.lt_succ_self _)] at hcut
    refine ⟨rounds, fun fuel => ?_⟩
    by_cases hfuel : rounds < fuel
    · rw [(settled hlt hfuel).1]
      exact Nat.le_of_lt_succ hlt
    · exact (replacements_length_le _ _ _).trans (Nat.le_of_not_lt hfuel)
  · rintro ⟨rounds, hrounds⟩
    have hlt : (replacements context (rounds + 1) (given text) world).length < rounds + 1 :=
      Nat.lt_succ_of_le (hrounds _)
    have hend := expandChars_ne_unfinished hvalue hworld hlt
    rw [plain_given] at hend
    refine ⟨rounds, _, hend, fun fuel hfuel => ?_⟩
    have hsame := (settled hlt hfuel).2
    rwa [plain_given] at hsame

theorem bounded_iff_nested {text : List Char} {world : σ} :
    (∃ rounds, ∀ fuel, (replacements context fuel (given text) world).length ≤ rounds) ↔
      ∃ depth, NestedWithin context text world depth := by
  constructor
  · rintro ⟨rounds, hrounds⟩
    refine ⟨rounds, fun fuel r hr => ?_⟩
    have hgiven : ∀ c ∈ given text, c.2.length ≤ 0 := by
      intro c hc
      obtain ⟨d, -, rfl⟩ := List.mem_map.mp hc
      exact Nat.le_refl _
    have hle := around_length_le hgiven r hr
    exact (hle.trans (Nat.le_of_eq (Nat.zero_add _))).trans (hrounds fuel)
  · rintro ⟨depth, hdepth⟩
    exact bounded_of_nested _ _ fun fuel r hr => Nat.lt_succ_of_le (hdepth fuel r hr)

-- For every text, every map of data and every assignment of addresses to pages: replacing the first
-- token until there is none left comes to a result or a failure exactly where there is a bound on
-- how many values come to stand one inside the other. There is one, whatever the data and the
-- addresses say, if the addresses are finitely many and no value comes to stand inside itself.
theorem ends_iff_nested (h : context.Reads data urls holds) (text : String) {world : σ}
    (hworld : holds world) :
    (Ends context text.toList world ↔ ∃ depth, NestedWithin context text.toList world depth) ∧
      ((Set.range urls).Finite → NeverInItself context text.toList world →
        Ends context text.toList world) := by
  have hends := (ends_iff_bounded h.value text.toList hworld).trans bounded_iff_nested
  refine ⟨hends, fun hurls hnew => hends.mpr ?_⟩
  have hfinite := held_finite data hurls
  have hheld : ∀ o : Occurrence, (o.value context).Gives holds
      fun value => '{' ∈ value.toList → value ∈ hfinite.toFinset := by
    simpa only [Set.Finite.mem_toFinset] using h.value
  have hgiven : Layered hfinite.toFinset (given text.toList) := by
    intro c hc _
    obtain ⟨d, -, rfl⟩ := List.mem_map.mp hc
    exact ⟨List.nodup_nil, fun _ hv => absurd hv List.not_mem_nil⟩
  exact ⟨_, fun fuel => hgiven.around_length_le hheld hworld (hnew fuel)⟩

end

section

open Rehearsal

variable (data : List (String × String)) (addresses : List (Nat × Option String))

-- A store in memory that holds some texts, and pages that stand at some addresses.
def Provides (world : World) : Prop :=
  world.values = data.map (fun (key, text) => (key, .text text)) ∧ world.addresses = addresses

def rehearsed : Context World := (environment scriptedPages (KeyedStore.store none)).templates

theorem get?_texts (key : String) :
    Fields.get? (data.map fun (key, text) => (key, .text text)) key =
      (data.lookup key).map .text := by
  induction data with
  | nil => rfl
  | cons p rest ih =>
    rw [Fields.get?] at ih ⊢
    rw [List.map_cons, List.find?_cons, List.lookup_cons, BEq.comm]
    by_cases hp : key = p.1
    · simp [hp]
    · have hne : (key == p.1) = false := beq_eq_false_iff_ne.mpr hp
      rw [hne]
      exact ih

theorem call_gives (bound : Option IterationContext) (kind : String) (details : List Value) :
    (KeyedStore.call bound kind details).Gives (Provides data addresses) fun _ => True := by
  have hnote : ∀ f : World → World, (∀ world, Provides data addresses world →
      Provides data addresses (f world)) →
      Effect.Gives (Provides data addresses) (fun _ => True) (modify f : Effect World PUnit) :=
    fun f hf world hworld => ⟨hf world hworld, trivial⟩
  have hread : Effect.Gives (Provides data addresses) (fun _ => True) (get : Effect World World) :=
    fun world hworld => ⟨hworld, trivial⟩
  refine gives_bind (hnote _ fun _ hworld => hworld) fun _ _ => gives_bind hread fun world _ => ?_
  unfold World.faultOf
  split
  · refine gives_throw ?_
    split <;> rintro ⟨⟩
  · exact gives_pure trivial

theorem rehearsed_reads : rehearsed.Reads data
    (fun page => (addresses.find? (·.1 == page)).bind (·.2)) (Provides data addresses) where
  datum key := by
    refine gives_bind (call_gives data addresses _ _ _) fun _ _ world hworld => ⟨hworld, ?_⟩
    change (Fields.get? world.values key).getD .null = _
    rw [hworld.1, get?_texts]
  address page world hworld := by
    refine ⟨hworld, ?_⟩
    change (world.addresses.find? (·.1 == page)).bind (·.2) = _
    rw [hworld.2]
  draw world hworld := by
    refine ⟨hworld, ?_⟩
    change ((alphabet[world.drawn % alphabet.size]?).getD 'a').isAlphanum
    have hall : alphabet.toList.all Char.isAlphanum = true := by decide +kernel
    cases hc : alphabet[world.drawn % alphabet.size]? with
    | none => decide
    | some c =>
      have hmem : c ∈ alphabet.toList := Array.mem_toList_iff.mpr (Array.mem_of_getElem? hc)
      exact List.all_eq_true.mp hall c hmem
  warn _ _ hworld := hworld

variable {data addresses} in
-- Reading a datum does not fail as long as nothing is to fail.
theorem datum_of_no_fault {world : World} (hworld : Provides data addresses world)
    (hfaults : world.storeFaults = []) (key : String) :
    ∃ after, rehearsed.datum key world = (.ok (((data.lookup key).map .text).getD .null), after) ∧
      Provides data addresses after ∧ after.storeFaults = [] := by
  let after : World := { world with
    clock := world.clock.spend "get"
    storeCalls := world.storeCalls.push (.list [.text "get", .text key]) }
  have hpass : World.faultOf world.storeFaults "get" = pure () := by
    rw [hfaults]
    rfl
  have hcall : KeyedStore.call none "get" [.text key] world = (.ok (), after) :=
    congrFun hpass after
  refine ⟨after, ?_, hworld, hfaults⟩
  rw [← get?_texts, ← hworld.1]
  exact Effect.bind_ok hcall _

theorem addresses_finite :
    (Set.range fun page => (addresses.find? (·.1 == page)).bind (·.2)).Finite := by
  refine (List.finite_toSet (none :: addresses.map (·.2))).subset ?_
  rintro _ ⟨page, rfl⟩
  change (addresses.find? (·.1 == page)).bind (·.2) ∈ none :: addresses.map (·.2)
  cases h : addresses.find? (·.1 == page) with
  | none => exact List.mem_cons_self
  | some p => exact List.mem_cons_of_mem _ (List.mem_map_of_mem (List.mem_of_find?_eq_some h))

end

-- A datum, an address in it and a datum in that. Braces with nothing between them are no token.
theorem ends_iff_nested_chain :
    let data := [("a.b", "<{{CurrentUrl,search}}>"), ("c.d", "x")]
    let addresses := [(0, some "http://h/?{{DataKey,c.d}}")]
    let urls := fun page => (addresses.find? (·.1 == page)).bind (·.2)
    let text := "{{DataKey,a.b}} {{}}"
    let world : Rehearsal.World :=
      { values := [("a.b", .text "<{{CurrentUrl,search}}>"), ("c.d", .text "x")]
        addresses := [(0, some "http://h/?{{DataKey,c.d}}")] }
    Provides data addresses world ∧ (Set.range urls).Finite ∧
      NeverInItself rehearsed text.toList world ∧
      ((Ends rehearsed text.toList world ↔
          ∃ depth, NestedWithin rehearsed text.toList world depth) ∧
        Ends rehearsed text.toList world) := by
  intro data addresses urls text world
  have hworld : Provides data addresses world := ⟨rfl, rfl⟩
  have hurls : (Set.range urls).Finite := addresses_finite addresses
  let made : List Replacement :=
    [⟨"<{{CurrentUrl,search}}>", []⟩,
      ⟨"?{{DataKey,c.d}}", ["<{{CurrentUrl,search}}>"]⟩,
      ⟨"x", ["?{{DataKey,c.d}}", "<{{CurrentUrl,search}}>"]⟩]
  have hall : replacements rehearsed 4 (given text.toList) world = made := by decide +kernel
  have hapart : ∀ r ∈ made, r.value ∉ r.around := by decide
  have hnew : NeverInItself rehearsed text.toList world := by
    intro fuel r hr
    have hmem := mem_of_settled (by rw [hall]; decide) hr
    rw [hall] at hmem
    exact hapart r hmem
  obtain ⟨hiff, hends⟩ := ends_iff_nested (rehearsed_reads data addresses) text hworld
  exact ⟨hworld, hurls, hnew, hiff, hends hurls hnew⟩

-- A datum that is its own token is put in its own place over and over.
theorem not_ends_selfMention :
    let text := "{{DataKey,a.b}}"
    let world : Rehearsal.World := { values := [("a.b", .text text)] }
    Provides [("a.b", text)] [] world ∧ ¬ Ends rehearsed text.toList world := by
  intro text world
  have hfirst : first? text.toList = some ⟨[], "DataKey,a.b".toList, []⟩ := by decide +kernel
  have htoken : Occurrence.token ⟨[], "DataKey,a.b".toList, []⟩ = .ok (.datum "a.b") := by rfl
  have hcut : ∀ fuel (w : Rehearsal.World), Provides [("a.b", text)] [] w → w.storeFaults = [] →
      (expandChars rehearsed fuel text.toList w).1 = .error .unfinished := by
    intro fuel
    induction fuel with
    | zero => exact fun _ _ _ => rfl
    | succ fuel ih =>
      intro w hw hfaults
      obtain ⟨after, hread, hafter, hfaults'⟩ := datum_of_no_fault hw hfaults "a.b"
      have hvalue : Occurrence.value rehearsed ⟨[], "DataKey,a.b".toList, []⟩ w =
          (.ok text, after) := by
        rw [Occurrence.value, htoken]
        exact Effect.bind_ok hread _
      rw [expandChars_of_some hfirst, Effect.bind_ok hvalue, List.nil_append, List.append_nil]
      exact ih after hafter hfaults'
  refine ⟨⟨rfl, rfl⟩, ?_⟩
  rintro ⟨rounds, outcome, hend, hsame⟩
  rw [← hsame _ (Nat.lt_succ_self _)] at hend
  exact hend (hcut _ world ⟨rfl, rfl⟩ rfl)

end Template

end Gleaner
