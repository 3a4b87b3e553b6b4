import QueryShape.Proofs.HeightCap
import QueryShape.Proofs.Resolving
import QueryShape.Proofs.Soundness

/-!
# Operations on their own

An operation needs nothing of its document but the fragments that it reaches. Without the rest it
has the same signature.
-/

namespace QueryShape

open Outcome

/-! ### Linking a part of a document -/

namespace Fragments

/-- Each fragment of the one table is in the other under the same name. -/
def Within (part whole : Fragments) : Prop :=
  ∀ name selection, part.find? name = some selection → whole.find? name = some selection

variable {part whole : Fragments}

theorem Within.expand (h : part.Within whole) {levels : Nat} {selection : Selection String}
    {tree : LinkedSelection} (he : part.expand levels selection = some tree) :
    whole.expand levels selection = some tree := by
  induction levels generalizing selection tree with
  | zero => exact he
  | succ levels ih =>
      apply Selection.substitute_mono _ he
      intro name linked hl
      obtain ⟨fragment, hf, hl⟩ := Option.bind_eq_some_iff.mp hl
      exact Option.bind_eq_some_iff.mpr ⟨fragment, h name fragment hf, ih hl⟩

theorem Within.expands (h : part.Within whole) {selection : Selection String}
    {tree : LinkedSelection} (he : part.Expands selection tree) : whole.Expands selection tree := by
  obtain ⟨levels, he⟩ := he
  exact ⟨levels, fun more hle => h.expand (he more hle)⟩

theorem Within.mem_spreadBy (h : part.Within whole) {name reference : String}
    (hr : reference ∈ part.spreadBy name) : reference ∈ whole.spreadBy name := by
  cases hf : part.find? name with
  | none => simp [spreadBy, hf] at hr
  | some selection =>
      rw [spreadBy_eq hf] at hr
      rwa [spreadBy_eq (h name selection hf)]

theorem Within.acyclic (h : part.Within whole) (ha : whole.Acyclic) : part.Acyclic := by
  intro name hn hr
  obtain ⟨selection, hs⟩ := OrderedMap.mem_keys_iff.mp hn
  apply ha name (OrderedMap.mem_keys_of_find? (h name selection hs))
  exact Relation.TransGen.mono (fun _ _ => h.mem_spreadBy) name name hr

end Fragments

namespace Resolved

variable {part whole : Resolved} {maxDepth : Nat}

/-- Some operations and some fragments of a document. -/
structure IsPart (part whole : Resolved) : Prop where
  operations : ∀ operation ∈ part.operations, operation ∈ whole.operations
  fragments : part.fragments.Within whole.fragments

theorem IsPart.mem_selections (h : part.IsPart whole) {selection : Selection String}
    (hs : selection ∈ part.selections) : selection ∈ whole.selections := by
  rcases List.mem_append.mp hs with hs | hs
  · obtain ⟨operation, ho, rfl⟩ := List.mem_map.mp hs
    exact List.mem_append_left _ (List.mem_map_of_mem (h.operations operation ho))
  · obtain ⟨⟨name, selection⟩, he, rfl⟩ := List.mem_map.mp hs
    exact mem_selections_of_find?
      (h.fragments name selection (OrderedMap.find?_eq_some_iff.mpr he))

theorem LinksTo.unique {fragments : Fragments} {operation : Operation (Selection String)}
    {linked linked' : Operation LinkedSelection} (h : LinksTo fragments operation linked)
    (h' : LinksTo fragments operation linked') : linked = linked' := by
  obtain ⟨kind, name, selection, vars⟩ := linked
  obtain ⟨kind', name', selection', vars'⟩ := linked'
  obtain ⟨rfl, rfl, rfl, hs⟩ := h
  obtain ⟨rfl, rfl, rfl, hs'⟩ := h'
  have hselection : selection = selection' := hs.unique hs'
  rw [hselection]

theorem complete_of_link {linked : List (Operation LinkedSelection)}
    (h : whole.link maxDepth = .ok linked) : whole.Complete := by
  intro selection hs
  rcases List.mem_append.mp hs with hs | hs
  · obtain ⟨operation, ho, rfl⟩ := List.mem_map.mp hs
    obtain ⟨result, _, hl⟩ := exists_of_mem_forall₂ (linksTo_of_link h).flip ho
    exact hl.selection.mem_keys
  · obtain ⟨⟨name, raw⟩, he, rfl⟩ := List.mem_map.mp hs
    have hraw := OrderedMap.find?_eq_some_iff.mpr he
    simp only [link, bind_eq_ok] at h
    obtain ⟨order, ho, _⟩ := h
    have hknown := (LinkOrder.sorted_spec ho).2.1 name (OrderedMap.mem_keys_of_find? hraw)
    rwa [Fragments.spreadBy_eq hraw] at hknown

/-- A part of a document that needs no other fragments is linked if the document is, to the same
operations. -/
theorem IsPart.exists_link (h : part.IsPart whole) (hc : part.Complete)
    {linked : List (Operation LinkedSelection)} (hl : whole.link maxDepth = .ok linked) :
    ∃ result, part.link maxDepth = .ok result ∧
      List.Forall₂ (LinksTo whole.fragments) part.operations result := by
  have hacyclic : whole.fragments.Acyclic := by
    simp only [link, bind_eq_ok] at hl
    obtain ⟨order, ho, _⟩ := hl
    exact Fragments.acyclic_of_linkOrder ho
  cases hp : part.link maxDepth with
  | ok result =>
      refine ⟨result, rfl, (linksTo_of_link hp).imp fun _ _ ho => ?_⟩
      exact ⟨ho.kind, ho.name?, ho.vars, h.fragments.expands ho.selection⟩
  | error error =>
      obtain ⟨_, selection, hs, tree, htree, hlt⟩ :=
        exists_higher_of_link_error hc (h.fragments.acyclic hacyclic) hp
      have hle := noHigherThan_of_link hl selection (h.mem_selections hs) tree
        (h.fragments.expands htree)
      omega

theorem IsPart.link_eq_singleton (h : part.IsPart whole) (hc : part.Complete)
    {linked : List (Operation LinkedSelection)} (hl : whole.link maxDepth = .ok linked) {i : Nat}
    {operation : Operation (Selection String)} (hi : whole.operations[i]? = some operation)
    (hp : part.operations = [operation]) :
    ∃ result, linked[i]? = some result ∧ part.link maxDepth = .ok [result] := by
  obtain ⟨results, hresults, hexpands⟩ := h.exists_link hc hl
  obtain ⟨result, hresult, hwhole⟩ := exists_getElem?_of_forall₂ (linksTo_of_link hl) hi
  refine ⟨result, hresult, ?_⟩
  rw [hp] at hexpands
  obtain ⟨other, rest, hother, hrest, rfl⟩ := List.forall₂_cons_left_iff.mp hexpands
  rw [hresults, List.forall₂_nil_left_iff.mp hrest, hother.unique hwhole]

end Resolved

/-! ### Cutting a document down -/

namespace Source.Document

/-- The fragment that a spread of this name stands for: the last one defined under the name. -/
def fragment? (document : Document) (name : String) : Option FragmentDefinition :=
  document.fragments.reverse.find? (·.name = name)

/-- The names of the fragments that items reach in a document: those that the items spread, and
those that are spread by a fragment reached. -/
inductive Reaches (document : Document) (items : List Item) : String → Prop where
  | spread {name : String} (h : name ∈ Item.spreadsIn items) : Reaches document items name
  | through {name inner : String} {definition : FragmentDefinition}
      (h : Reaches document items name) (hd : document.fragment? name = some definition)
      (hi : inner ∈ Item.spreadsIn definition.items) : Reaches document items inner

/-- All definitions of fragments with these names, and no operation. -/
def fragmentsNamed (document : Document) (names : String → Prop) [DecidablePred names] : Document :=
  document.filter fun
    | .operation _ => false
    | .fragment definition => names definition.name

variable (names : String → Prop) [DecidablePred names]

theorem operations_fragmentsNamed (document : Document) :
    (document.fragmentsNamed names).operations = [] := by
  induction document with
  | nil => rfl
  | cons definition rest ih =>
      cases definition with
      | operation definition => simpa [fragmentsNamed] using ih
      | fragment definition =>
          by_cases hn : names definition.name <;> simpa [fragmentsNamed, hn] using ih

theorem fragments_fragmentsNamed (document : Document) :
    (document.fragmentsNamed names).fragments = document.fragments.filter (names ·.name) := by
  induction document with
  | nil => rfl
  | cons definition rest ih =>
      cases definition with
      | operation definition => simpa [fragmentsNamed] using ih
      | fragment definition =>
          by_cases hn : names definition.name <;> simpa [fragmentsNamed, hn] using ih

end Source.Document

open Source (Definition Document OperationDefinition FragmentDefinition Item)

namespace OrderedMap

variable {α : Type} (names : String → Prop) [DecidablePred names]

theorem lookup_filter (entries : List (String × α)) (key : String) :
    (entries.filter fun entry => names entry.1).lookup key =
      if names key then entries.lookup key else none := by
  induction entries with
  | nil => simp
  | cons entry rest ih =>
      rw [List.filter_cons, lookup_cons_eq]
      by_cases hk : key = entry.1
      · subst hk
        by_cases hn : names entry.1 <;> simp [hn, lookup_cons_eq, ih]
      · by_cases hn : names entry.1 <;> simp [hn, hk, lookup_cons_eq, ih]

theorem find?_ofList_filter (entries : List (String × α)) (key : String) :
    (ofList (entries.filter fun entry => names entry.1)).find? key =
      if names key then (ofList entries).find? key else none := by
  rw [find?_ofList, find?_ofList, ← List.filter_reverse, lookup_filter]

end OrderedMap

namespace Schema

variable {schema : Schema} {maxDepth : Nat}

/-- The fragment that is looked up in the table is what the last definition of its name is resolved
to. -/
theorem exists_fragment?_of_find? {document : Document}
    {entries : List (String × Selection String)}
    (h : List.Forall₂ (schema.ResolvesFragment maxDepth) document.fragments entries)
    {name : String} {selection : Selection String}
    (hf : (OrderedMap.ofList entries).find? name = some selection) :
    ∃ definition, document.fragment? name = some definition ∧
      schema.ResolvesFragment maxDepth definition (name, selection) := by
  rw [OrderedMap.find?_ofList] at hf
  unfold Document.fragment?
  have hreverse := List.forall₂_reverse_iff.mpr h
  generalize document.fragments.reverse = definitions, entries.reverse = entries at hf hreverse ⊢
  induction hreverse with
  | nil => simp at hf
  | @cons definition entry definitions entries hd _ ih =>
      rw [OrderedMap.lookup_cons_eq] at hf
      by_cases hn : name = entry.1
      · rw [if_pos hn] at hf
        cases hf
        exact ⟨definition, by simp [hn, hd.1], hn ▸ hd⟩
      · rw [if_neg hn] at hf
        obtain ⟨other, ho, hr⟩ := ih hf
        refine ⟨other, ?_, hr⟩
        rw [List.find?_cons, ho]
        have hne : ¬ definition.name = name := fun he => hn (by rw [hd.1, he])
        simp [hne]

theorem exists_resolve_fragmentsNamed {before after : Document} {definition : OperationDefinition}
    {resolved : Resolved}
    (h : schema.resolve maxDepth (before ++ .operation definition :: after) = .ok resolved)
    (names : String → Prop) [DecidablePred names] :
    ∃ operation part, resolved.operations[before.operations.length]? = some operation ∧
      schema.ResolvesOperation maxDepth definition operation ∧
      schema.resolve maxDepth
        (before.fragmentsNamed names ++ .operation definition :: after.fragmentsNamed names) =
          .ok part ∧
      part.operations = [operation] ∧
      ∀ name, part.fragments.find? name =
        if names name then resolved.fragments.find? name else none := by
  obtain ⟨operations, entries, hos, hes, rfl⟩ := (schema.resolve_eq_ok_iff maxDepth).mp h
  have hdefined : (Document.operations (before ++ .operation definition :: after))[
      before.operations.length]? = some definition := by simp
  obtain ⟨operation, hget, ho⟩ := exists_getElem?_of_forall₂ hos hdefined
  refine ⟨operation, ⟨[operation], .ofList (entries.filter fun entry => names entry.1)⟩, hget, ho,
    (schema.resolve_eq_ok_iff maxDepth).mpr ⟨[operation], _, ?_, ?_, rfl⟩, rfl,
    OrderedMap.find?_ofList_filter names entries⟩
  · simpa [Document.operations_fragmentsNamed] using ho
  · have hfilter := List.rel_filter (p := fun definition : FragmentDefinition =>
      decide (names definition.name)) (q := fun entry : String × Selection String =>
      decide (names entry.1)) (fun definition entry he => by simp [he.1]) hes
    simpa [Document.fragments_fragmentsNamed] using hfilter

theorem complete_of_reaches {document : Document} {resolved part : Resolved}
    {definition : OperationDefinition} {operation : Operation (Selection String)}
    (h : schema.resolve maxDepth document = .ok resolved) (hc : resolved.Complete)
    (ho : schema.ResolvesOperation maxDepth definition operation)
    (hmem : operation ∈ resolved.operations) (hoperations : part.operations = [operation])
    (hfind : ∀ name selection, part.fragments.find? name = some selection ↔
      document.Reaches definition.items name ∧ resolved.fragments.find? name = some selection) :
    part.Complete := by
  have hkeys {name : String} (hr : document.Reaches definition.items name)
      (hk : name ∈ resolved.fragments.keys) : name ∈ part.fragments.keys := by
    obtain ⟨selection, hs⟩ := OrderedMap.mem_keys_iff.mp hk
    exact OrderedMap.mem_keys_of_find? ((hfind name selection).mpr ⟨hr, hs⟩)
  intro selection hs name hn
  rcases List.mem_append.mp hs with hs | hs
  · rw [hoperations, List.map_singleton, List.mem_singleton] at hs
    subst hs
    refine hkeys (.spread (mem_spreadsIn_of_resolvesOperation ho name hn)) ?_
    exact hc _ (List.mem_append_left _ (List.mem_map_of_mem hmem)) name hn
  · obtain ⟨⟨user, selection⟩, he, rfl⟩ := List.mem_map.mp hs
    obtain ⟨hreaches, hf⟩ := (hfind user selection).mp (OrderedMap.find?_eq_some_iff.mpr he)
    refine hkeys ?_ (hc _ (Resolved.mem_selections_of_find? hf) name hn)
    obtain ⟨operations, entries, _, hes, rfl⟩ := (schema.resolve_eq_ok_iff maxDepth).mp h
    obtain ⟨fragment, hlast, _, hroot⟩ := exists_fragment?_of_find? hes hf
    exact .through hreaches hlast (mem_spreadsIn_of_resolveRoot hroot name hn)

end Schema

/-- Operations are independent of each other and of the fragments that they do not reach. If a
document has signatures, so has what is left of it when only one of its operations is kept, with all
definitions of the fragments that this operation reaches; and its one signature is the one that the
operation has in the whole document. -/
theorem Schema.signatures_independent (schema : Schema) (options : Options) (before : Document)
    (definition : OperationDefinition) (after : Document) (names : String → Prop)
    [DecidablePred names]
    (hnames : ∀ name, names name ↔
      Document.Reaches (before ++ .operation definition :: after) definition.items name)
    {result : List Signature}
    (h : schema.signatures options (before ++ .operation definition :: after) = .ok result) :
    ∃ signature, result[before.operations.length]? = some signature ∧
      schema.signatures options
        (before.fragmentsNamed names ++ .operation definition :: after.fragmentsNamed names) =
          .ok [signature] := by
  simp only [Schema.signatures, bind_eq_ok] at h
  obtain ⟨resolved, hr, linked, hl, hs⟩ := h
  obtain ⟨operation, part, hi, ho, hpart, hoperations, hfind⟩ :=
    exists_resolve_fragmentsNamed hr names
  have hmem : operation ∈ resolved.operations := List.mem_of_getElem? hi
  have hkept (name : String) (selection : Selection String) :
      part.fragments.find? name = some selection ↔
        Document.Reaches (before ++ .operation definition :: after) definition.items name ∧
          resolved.fragments.find? name = some selection := by
    rw [hfind, ← hnames]
    simp
  have hisPart : part.IsPart resolved := by
    refine ⟨by simpa [hoperations] using hmem, fun name selection hf => ?_⟩
    exact ((hkept name selection).mp hf).2
  have hcomplete := complete_of_reaches hr (Resolved.complete_of_link hl) ho hmem hoperations hkept
  obtain ⟨linkedOperation, hilinked, hlinkedPart⟩ :=
    hisPart.link_eq_singleton hcomplete hl hi hoperations
  have hflat : (linked.map Operation.flatten)[before.operations.length]? =
      some linkedOperation.flatten := by
    rw [List.getElem?_map, hilinked, Option.map_some]
  obtain ⟨signature, hisignature, hsignature⟩ := exists_getElem?_of_forall₂ (mapM_eq_ok hs) hflat
  refine ⟨signature, hisignature, ?_⟩
  simp only [Schema.signatures, hpart, hlinkedPart, bind_eq_ok, Except.ok.injEq, exists_eq_left']
  simp [QueryShape.signatures, hsignature]

def crewBefore : Document :=
  [.fragment ⟨⟨1, 1⟩, "Hero", "Character", [.spread "Function"]⟩,
    .operation { position := ⟨2, 1⟩, kind := .query, name? := some "Function", items :=
      [.field ⟨2, 18⟩ none "hero" [.spread "Function"]] }]

def crewOperation : OperationDefinition where
  position := ⟨3, 1⟩
  kind := .query
  name? := some "Hero"
  items := [.field ⟨3, 14⟩ none "hero" [.spread "Hero"]]

def crewAfter : Document :=
  [.fragment ⟨⟨4, 1⟩, "Function", "Droid", [.field ⟨4, 30⟩ none "function" []]⟩,
    .fragment ⟨⟨5, 1⟩, "Hero", "Character", [.field ⟨5, 30⟩ none "name" []]⟩]

def crewSignatures : List Signature :=
  [⟨.query, some "Function", .object [("hero", .nullable (.union
      [.object [("function", .nullable .string)], .anyObject]))], []⟩,
    ⟨.query, some "Hero", .object [("hero", .nullable (.object [("name", .string)]))], []⟩]

theorem crew_reaches_iff (name : String) : name = "Hero" ↔
    Document.Reaches (crewBefore ++ .operation crewOperation :: crewAfter) crewOperation.items
      name := by
  constructor
  · rintro rfl
    exact .spread (by decide)
  · intro h
    induction h with
    | spread h => simpa [crewOperation, Item.spreadsIn, Item.spreads] using h
    | @through _ _ definition _ hd hi ih =>
        subst ih
        have hlast : definition = ⟨⟨5, 1⟩, "Hero", "Character", [.field ⟨5, 30⟩ none "name" []]⟩ :=
          (Option.some.inj hd).symm
        simp [hlast, Item.spreadsIn, Item.spreads] at hi

theorem Schema.signatures_independent_crew :
    heroSchema.signatures {} (crewBefore ++ .operation crewOperation :: crewAfter) =
        .ok crewSignatures ∧
      heroSchema.signatures {}
        [.fragment ⟨⟨1, 1⟩, "Hero", "Character", [.spread "Function"]⟩,
          .operation crewOperation,
          .fragment ⟨⟨5, 1⟩, "Hero", "Character", [.field ⟨5, 30⟩ none "name" []]⟩] =
        .ok (crewSignatures.drop 1) := by
  have h : heroSchema.signatures {} (crewBefore ++ .operation crewOperation :: crewAfter) =
      .ok crewSignatures := by cbv
  obtain ⟨signature, hi, hs⟩ := heroSchema.signatures_independent {} crewBefore crewOperation
    crewAfter (· = "Hero") crew_reaches_iff h
  cases hi
  exact ⟨h, hs⟩

end QueryShape
