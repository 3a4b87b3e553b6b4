import QueryShape.DocumentTyping
import QueryShape.Proofs.Merging
import QueryShape.Proofs.RepeatedLinking
import QueryShape.Proofs.SelectionShape
import QueryShape.Proofs.Soundness

/-!
# Repetitions leave no trace

Flattening merges repeated branches, and the normal form of an object writes a repeated key once. So
selections that differ by repetitions have the same flattened shape.
-/

namespace QueryShape

open Outcome

namespace OrderedMap

theorem ofList_eq_of_repeats {α : Type} {entries entries' : List (String × α)}
    (h : Repeats entries entries') : ofList entries' = ofList entries := by
  refine eq_of_find? ?_ fun key => ?_
  · rw [keys_ofList, keys_ofList, (h.map Prod.fst).eraseDups_eq]
  · rw [find?_ofList, find?_ofList]
    refine h.eq_of_repeats (f := fun entries => entries.reverse.lookup key)
      fun before block after => ?_
    simp only [List.reverse_append, List.lookup_append]
    cases after.reverse.lookup key <;> cases block.reverse.lookup key <;> rfl

end OrderedMap

namespace Shape

theorem normalize_union (members : List Shape) :
    (union members).normalize = match normalizeAll members with
      | [only] => only
      | shapes => .union shapes := by
  match members with
  | [] => rfl
  | [only] => rfl
  | first :: second :: rest => rfl

theorem normalize_wrapped (wrapping : List Wrapper) (nullable never : Bool) (core : Shape) :
    (wrapped wrapping nullable never core).normalize =
      wrapped wrapping nullable never core.normalize := by
  have horNull (nullable : Bool) (shape : Shape) :
      (orNull nullable shape).normalize = orNull nullable shape.normalize := by
    cases nullable <;> rfl
  induction wrapping generalizing nullable with
  | nil => rw [wrapped, horNull, wrapped]
  | cons wrapper inner ih =>
      cases wrapper with
      | list => rw [wrapped, horNull, normalize, ih, wrapped]
      | notNull => rw [wrapped, ih, wrapped]

theorem normalize_ofParts_congr {properties properties' : List (String × Shape)}
    {branches branches' : List Shape}
    (hp : OrderedMap.ofList (normalizeProperties properties) =
      OrderedMap.ofList (normalizeProperties properties'))
    (hb : normalizeAll branches = normalizeAll branches') :
    (ofParts properties branches).normalize = (ofParts properties' branches').normalize := by
  have hobject : (object properties).normalize = (object properties').normalize := by
    rw [normalize, normalize, hp]
  have hunion : (union branches).normalize = (union branches').normalize := by
    rw [normalize_union, normalize_union, hb]
  have hintersection (first second : Shape) : (intersection [first, second]).normalize =
      .intersection [first.normalize, second.normalize] := rfl
  have hkeys (properties : List (String × Shape)) :
      (OrderedMap.ofList (normalizeProperties properties)).keys = [] ↔ properties = [] := by
    rw [OrderedMap.keys_ofList, normalizeProperties_eq_map]
    cases properties <;> simp [List.eraseDups_cons]
  have hproperties : properties = [] ↔ properties' = [] := by rw [← hkeys, ← hkeys, hp]
  have hbranches : branches = [] ↔ branches' = [] := by
    have hlength := congrArg List.length hb
    simp only [normalizeAll_eq_map, List.length_map] at hlength
    rw [← List.length_eq_zero_iff, ← List.length_eq_zero_iff, hlength]
  have hpne (h : properties ≠ []) := List.exists_cons_of_ne_nil (hproperties.not.mp h)
  have hbne (h : branches ≠ []) := List.exists_cons_of_ne_nil (hbranches.not.mp h)
  cases properties with
  | nil =>
      obtain rfl := hproperties.mp rfl
      cases branches with
      | nil =>
          obtain rfl := hbranches.mp rfl
          rfl
      | cons branch rest =>
          obtain ⟨branch', rest', rfl⟩ := hbne (List.cons_ne_nil branch rest)
          exact hunion
  | cons property others =>
      obtain ⟨property', others', rfl⟩ := hpne (List.cons_ne_nil property others)
      cases branches with
      | nil =>
          obtain rfl := hbranches.mp rfl
          exact hobject
      | cons branch rest =>
          obtain ⟨branch', rest', rfl⟩ := hbne (List.cons_ne_nil branch rest)
          simp only [ofParts]
          rw [hintersection, hintersection, hobject, hunion]

end Shape

namespace Selection

/-! ### Flattening -/

theorem Echoes.collapse {selection selection' : LinkedSelection}
    (h : selection.Echoes selection') : selection.collapse.Echoes selection'.collapse := by
  obtain ⟨hon, hpossible, hfields, hbranches, hspreads⟩ := echoes_iff.mp h
  refine echoes_iff.mpr ⟨hon, hpossible, hfields.append (hbranches.flatMap ?_),
    hbranches.flatMap ?_, hspreads⟩
  · intro branch branch' hb
    obtain ⟨honb, _, hfieldsb, _, _⟩ := echoes_iff.mp hb
    rw [honb, hon]
    split
    · exact hfieldsb
    · exact .nil
  · intro branch branch' hb
    obtain ⟨honb, _, _, hbranchesb, _⟩ := echoes_iff.mp hb
    rw [honb, hon]
    split
    · exact hbranchesb
    · exact .singleton hb

theorem Echoes.gather {branches branches' : List LinkedSelection}
    (h : RepeatsUpTo Echoes branches branches') (type : String) :
    (gather branches type).Echoes (gather branches' type) := by
  have hsame : RepeatsUpTo Echoes (branches.filter (·.on = type))
      (branches'.filter (·.on = type)) :=
    h.filter fun branch branch' hb => by rw [(echoes_iff.mp hb).1]
  refine echoes_iff.mpr ⟨rfl, ?_, hsame.flatMap fun _ _ hb => (echoes_iff.mp hb).2.2.1,
    hsame.flatMap fun _ _ hb => (echoes_iff.mp hb).2.2.2.1, .refl []⟩
  have hpossible : Repeats ((branches.filter (·.on = type)).map possible)
      ((branches'.filter (·.on = type)).map possible) :=
    hsame.map_repeats fun _ _ _ hb => (echoes_iff.mp hb).2.1
  have hfirst := hpossible.head?_eq
  rw [List.head?_map, List.head?_map] at hfirst
  simp only [Selection.gather, hfirst]

/-- Merging removes the repetitions among branches: it leaves them inside the branches only. -/
theorem echoes_mergeSiblings {branches branches' : List LinkedSelection}
    (h : RepeatsUpTo Echoes branches branches') :
    List.Forall₂ Echoes (mergeSiblings branches) (mergeSiblings branches') := by
  have htypes : Repeats (branches.map on) (branches'.map on) :=
    h.map_repeats fun _ _ _ hb => (echoes_iff.mp hb).1
  rw [mergeSiblings_eq_map, mergeSiblings_eq_map, htypes.eraseDups_eq, List.forall₂_map_left_iff,
    List.forall₂_map_right_iff]
  exact List.forall₂_same.mpr fun type _ => Echoes.gather h type

/-! ### Shapes -/

/-- Selections of one type with the same normal shape, which also reach equally deep. -/
structure SameShape (options : Options) (selection selection' : LinkedSelection) : Prop where
  on : selection.on = selection'.on
  shape : (selection.shape options).normalize = (selection'.shape options).normalize
  deepest : ∀ depth, selection.deepest depth = selection'.deepest depth

theorem normalize_coreShape_eq {options : Options} {possible : List String}
    {wrapping : List Wrapper} {core core' : OutputCore LinkedSelection}
    (h : core.Agrees (SameShape options) core') :
    (coreShape options possible wrapping core).normalize =
      (coreShape options possible wrapping core').normalize := by
  cases h with
  | scalar name => rfl
  | enum values => rfl
  | typename => rfl
  | selection h =>
      rw [coreShape, coreShape, Shape.normalize_wrapped, Shape.normalize_wrapped, h.shape]

theorem deepestCore_eq {options : Options} {depth : Nat} {core core' : OutputCore LinkedSelection}
    (h : core.Agrees (SameShape options) core') :
    deepestCore depth core = deepestCore depth core' := by
  cases h with
  | scalar name => rfl
  | enum values => rfl
  | typename => rfl
  | selection h => exact h.deepest depth

theorem normalizeAll_withFallback_eq {selection selection' : LinkedSelection}
    {shapes shapes' : List Shape} (h : Shape.normalizeAll shapes = Shape.normalizeAll shapes')
    (hon : selection.branches.map on = selection'.branches.map on)
    (hpossible : selection.possible = selection'.possible) :
    Shape.normalizeAll (withFallback selection shapes) =
      Shape.normalizeAll (withFallback selection' shapes') := by
  rw [Shape.normalizeAll_eq_map, Shape.normalizeAll_eq_map] at h ⊢
  have hempty := congrArg List.isEmpty h
  rw [List.isEmpty_map, List.isEmpty_map] at hempty
  unfold withFallback
  rw [isExhaustive_eq, isExhaustive_eq, hon, hpossible, hempty]
  split
  · exact h
  · rw [List.map_append, List.map_append, h]

/-- Selections have the same shape if their fields have it up to repetitions, and their branches one
by one. -/
theorem sameShape_of_parts {options : Options} {selection selection' : LinkedSelection}
    (hon : selection.on = selection'.on) (hpossible : selection.possible = selection'.possible)
    (hfields : RepeatsUpTo (Field.Agrees (SameShape options)) selection.fields selection'.fields)
    (hbranches : List.Forall₂ (SameShape options) selection.branches selection'.branches) :
    SameShape options selection selection' := by
  obtain ⟨on, possible, fields, branches, spreads⟩ := selection
  obtain ⟨on', possible', fields', branches', spreads'⟩ := selection'
  dsimp only at hon hpossible hfields hbranches
  subst hon hpossible
  have hmap {α : Type} {f : LinkedSelection → α}
      (hf : ∀ branch branch', SameShape options branch branch' → f branch = f branch') :
      branches.map f = branches'.map f :=
    map_eq_map_of_forall₂ hbranches hf
  refine ⟨rfl, ?_, fun depth => ?_⟩
  · rw [shape, shape]
    apply Shape.normalize_ofParts_congr
    · simp only [Shape.normalizeProperties_eq_map, properties_eq_map, List.map_map]
      refine (OrderedMap.ofList_eq_of_repeats (hfields.map_repeats ?_)).symm
      rintro _ _ _ ⟨key, wrapping, hc⟩
      exact Prod.ext rfl (normalize_coreShape_eq hc)
    · refine normalizeAll_withFallback_eq ?_ (hmap fun _ _ hb => hb.on) rfl
      simp only [Shape.normalizeAll_eq_map, shapes_eq_map, List.map_map]
      exact hmap fun _ _ hb => hb.shape
  · have hinFields : deepestField (depth + 1) fields' = deepestField (depth + 1) fields := by
      rw [deepestField_eq_foldr, deepestField_eq_foldr]
      refine (hfields.map_repeats ?_).foldr_max_eq
      rintro _ _ _ ⟨key, wrapping, hc⟩
      exact deepestCore_eq hc
    have hinBranches :
        deepestBranch (depth + 1) branches = deepestBranch (depth + 1) branches' := by
      rw [deepestBranch_eq_foldr, deepestBranch_eq_foldr, hmap fun _ _ hb => hb.deepest (depth + 1)]
    rw [deepest, deepest, hinFields, hinBranches]

theorem agrees_mapNested {R : LinkedSelection → LinkedSelection → Prop}
    {f : LinkedSelection → LinkedSelection} {field field' : Field LinkedSelection}
    (h : field.Agrees (fun nested nested' => R (f nested) (f nested')) field') :
    (field.mapNested f).Agrees R (field'.mapNested f) := by
  obtain ⟨key, wrapping, hc⟩ := h
  cases hc with
  | scalar name => exact ⟨key, wrapping, .scalar name⟩
  | enum values => exact ⟨key, wrapping, .enum values⟩
  | typename => exact ⟨key, wrapping, .typename⟩
  | selection h => exact ⟨key, wrapping, .selection h⟩

/-- Selections that differ by repetitions have the same shape once they are flattened. -/
theorem Echoes.sameShape_flatten (options : Options) {selection selection' : LinkedSelection}
    (h : selection.Echoes selection') :
    SameShape options selection.flatten selection'.flatten := by
  induction selection using flatten.induct generalizing selection' with
  | case1 selection ihNested ihBranch =>
      obtain ⟨hon, hpossible, hfields, hbranches, _⟩ := echoes_iff.mp h.collapse
      have hmerged := echoes_mergeSiblings hbranches
      rw [flatten_eq, flatten_eq]
      refine sameShape_of_parts hon hpossible ?_ ?_
      · refine (hfields.imp fun field hf field' hagrees => ?_).map fun _ _ => agrees_mapNested
        exact hagrees.imp fun nested _ hn hecho => ihNested field hf nested hn hecho
      · rw [List.forall₂_map_left_iff, List.forall₂_map_right_iff]
        exact ((List.forall₂_and_left _ _).mpr ⟨ihBranch, hmerged⟩).imp fun _ _ hb => hb.1 hb.2

end Selection

theorem Operation.Echoes.signature_eq {operation operation' : Operation LinkedSelection}
    (h : operation.Echoes operation') (options : Options) :
    operation.flatten.signature options = operation'.flatten.signature options := by
  have hshape := h.selection.sameShape_flatten options
  unfold Operation.signature Operation.flatten
  simp only [Selection.shapeAt_eq, bind_assoc, pure_bind, hshape.deepest, hshape.shape, h.kind,
    h.name?, h.vars]

/-- Writing an item of a selection set twice in a row changes nothing, at whatever depth of
whichever operation or fragment of the document it stands. In particular an inline fragment or a
spread can be repeated: the document is refused with the same error, or has the same signatures. -/
theorem Schema.signatures_eq_of_repeatsItem (schema : Schema) (options : Options)
    {document document' : Source.Document} (h : document.RepeatsItem document') :
    schema.signatures options document = schema.signatures options document' := by
  rw [← agree_eq_iff]
  unfold Schema.signatures
  apply (schema.agree_resolve h).bind
  intro resolved resolved' hr
  apply (hr.agree_link options.maxDepth).bind
  intro linked linked' hl
  have hsignatures : Agree (List.Forall₂ Eq)
      (QueryShape.signatures options (linked.map Operation.flatten))
      (QueryShape.signatures options (linked'.map Operation.flatten)) := by
    refine .mapM ?_
    rw [List.forall₂_map_left_iff, List.forall₂_map_right_iff]
    exact hl.imp fun _ _ ho => agree_eq_iff.mpr (ho.signature_eq options)
  rwa [List.forall₂_eq_eq_eq] at hsignatures

def heroDocumentTwice : Source.Document :=
  [.operation { position := ⟨1, 1⟩, kind := .query, items := [.field ⟨1, 3⟩ none "hero"
      [.field ⟨1, 10⟩ none "name" [], .spread "Function", .spread "Function"]] },
    .fragment ⟨⟨2, 1⟩, "Function", "Droid", [.field ⟨2, 20⟩ none "function" []]⟩]

theorem Schema.signatures_eq_of_repeatsItem_heroDocument :
    Source.Document.RepeatsItem heroDocument heroDocumentTwice ∧
      heroSchema.signatures {} heroDocument = heroSchema.signatures {} heroDocumentTwice := by
  have h : Source.Document.RepeatsItem heroDocument heroDocumentTwice :=
    .intro [] (.operation _ (.inField _ _ _ (.behind _ (.here _ [])) [])) _
  exact ⟨h, heroSchema.signatures_eq_of_repeatsItem {} h⟩

end QueryShape
