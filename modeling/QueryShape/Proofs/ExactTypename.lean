import QueryShape.DocumentTyping
import QueryShape.Proofs.Agreement
import QueryShape.Proofs.Echoes
import QueryShape.Proofs.SchemaTyping
import QueryShape.Proofs.SelectionShape
import QueryShape.Proofs.ShapeParts

/-!
# Exact type names

With exact type names, the name of a type is a literal where only one type is possible, and all else
about a document stays. So each result admits fewer values.
-/

namespace QueryShape

open Outcome

/-! ### Entries with the same keys -/

namespace OrderedMap

variable {α β : Type} {R : α → β → Prop}

inductive SameKey (R : α → β → Prop) : String × α → String × β → Prop where
  | intro (key : String) {value : α} {value' : β} (h : R value value') :
      SameKey R (key, value) (key, value')

theorem keys_eq_of_sameKey {entries : List (String × α)} {entries' : List (String × β)}
    (h : List.Forall₂ (SameKey R) entries entries') :
    entries.map Prod.fst = entries'.map Prod.fst := by
  induction h with
  | nil => rfl
  | cons hentry _ ih =>
      obtain ⟨key, _⟩ := hentry
      rw [List.map_cons, List.map_cons, ih]

theorem sameKey_imp_of_mem {S : α → β → Prop} {entries : List (String × α)}
    {entries' : List (String × β)} (h : List.Forall₂ (SameKey R) entries entries')
    (hRS : ∀ value ∈ entries.map Prod.snd, ∀ value', R value value' → S value value') :
    List.Forall₂ (SameKey S) entries entries' := by
  induction h with
  | nil => exact .nil
  | cons hentry _ ih =>
      obtain ⟨key, hvalue⟩ := hentry
      rw [List.map_cons, List.forall_mem_cons] at hRS
      exact .cons ⟨key, hRS.1 _ hvalue⟩ (ih hRS.2)

theorem sameKey_put (key : String) {value : α} {value' : β} (h : R value value')
    {entries : List (String × α)} {entries' : List (String × β)}
    (hs : List.Forall₂ (SameKey R) entries entries') :
    List.Forall₂ (SameKey R) (put key value entries) (put key value' entries') := by
  induction hs with
  | nil => exact .cons ⟨key, h⟩ .nil
  | cons hentry hrest ih =>
      obtain ⟨name, hvalue⟩ := hentry
      by_cases hk : name = key
      · simp only [put, hk, if_true]
        exact .cons ⟨key, h⟩ hrest
      · simp only [put, hk, if_false]
        exact .cons ⟨name, hvalue⟩ ih

theorem sameKey_ofList {entries : List (String × α)} {entries' : List (String × β)}
    (h : List.Forall₂ (SameKey R) entries entries') :
    List.Forall₂ (SameKey R) (ofList entries).entries (ofList entries').entries := by
  have hinsert {map : OrderedMap α} {map' : OrderedMap β}
      (hmap : List.Forall₂ (SameKey R) map.entries map'.entries) :
      List.Forall₂ (SameKey R) (map.insertAll entries).entries
        (map'.insertAll entries').entries := by
    induction h generalizing map map' with
    | nil => exact hmap
    | cons hentry _ ih =>
        obtain ⟨key, hvalue⟩ := hentry
        have hnext : List.Forall₂ (SameKey R) (map.insert key _).entries
            (map'.insert key _).entries := sameKey_put key hvalue hmap
        exact ih hnext
  exact hinsert .nil

end OrderedMap

open OrderedMap (SameKey)

/-! ### Refining shapes -/

namespace Shape

/-- The same shape, but for strings in the second that are literals in the first; each of these
literals is in `p`. -/
inductive Refines (p : String → Prop) : Shape → Shape → Prop where
  | boolean : Refines p .boolean .boolean
  | string : Refines p .string .string
  | number : Refines p .number .number
  | literal (text : String) : Refines p (.literal text) (.literal text)
  | reference (name : String) : Refines p (.reference name) (.reference name)
  | exact {text : String} (h : p text) : Refines p (.literal text) .string
  | list {element element' : Shape} (h : Refines p element element') :
      Refines p (.list element) (.list element')
  | nullable {shape shape' : Shape} (h : Refines p shape shape') :
      Refines p (.nullable shape) (.nullable shape')
  | union {members members' : List Shape} (h : List.Forall₂ (Refines p) members members') :
      Refines p (.union members) (.union members')
  | intersection {members members' : List Shape} (h : List.Forall₂ (Refines p) members members') :
      Refines p (.intersection members) (.intersection members')
  | object {properties properties' : List (String × Shape)}
      (h : List.Forall₂ (SameKey (Refines p)) properties properties') :
      Refines p (.object properties) (.object properties')

variable {p : String → Prop}

theorem Refines.refl (shape : Shape) : shape.Refines p shape := by
  induction shape using induction with
  | step shape ih =>
      cases shape with
      | boolean => exact .boolean
      | string => exact .string
      | number => exact .number
      | literal text => exact .literal text
      | reference name => exact .reference name
      | list element => exact .list (ih element (List.mem_singleton_self _))
      | nullable inner => exact .nullable (ih inner (List.mem_singleton_self _))
      | union members => exact .union (List.forall₂_same.mpr ih)
      | intersection members => exact .intersection (List.forall₂_same.mpr ih)
      | object properties =>
          exact .object (List.forall₂_same.mpr fun property hp =>
            ⟨property.1, ih property.2 (List.mem_map_of_mem hp)⟩)

theorem Refines.normalize {exact plain : Shape} (h : exact.Refines p plain) :
    exact.normalize.Refines p plain.normalize := by
  induction exact using induction generalizing plain with
  | step exact ih =>
      have hmap {members members' : List Shape} (hparts : exact.parts = members)
          (h : List.Forall₂ (Refines p) members members') :
          List.Forall₂ (Refines p) (members.map Shape.normalize)
            (members'.map Shape.normalize) := by
        rw [List.forall₂_map_left_iff, List.forall₂_map_right_iff]
        subst hparts
        exact ((List.forall₂_and_left _ _).mpr ⟨ih, h⟩).imp fun _ _ hm => hm.1 hm.2
      cases h with
      | boolean => exact .boolean
      | string => exact .string
      | number => exact .number
      | literal text => exact .literal text
      | reference name => exact .reference name
      | exact h => exact .exact h
      | list h => exact .list (ih _ (List.mem_singleton_self _) h)
      | nullable h => exact .nullable (ih _ (List.mem_singleton_self _) h)
      | union h =>
          have hall := hmap rfl h
          -- one member replaces the union on both sides, as there are equally many
          cases h with
          | nil => exact .union .nil
          | cons hfirst hrest =>
              cases hrest with
              | nil =>
                  have hone := ih _ (List.mem_singleton_self _) hfirst
                  exact hone
              | cons _ _ =>
                  rw [normalize_union_of_only? rfl, normalize_union_of_only? rfl]
                  exact .union hall
      | intersection h =>
          have hall := hmap rfl h
          cases h with
          | nil => exact .intersection .nil
          | cons hfirst hrest =>
              cases hrest with
              | nil =>
                  have hone := ih _ (List.mem_singleton_self _) hfirst
                  exact hone
              | cons _ _ =>
                  rw [normalize_intersection_of_only? rfl, normalize_intersection_of_only? rfl]
                  exact .intersection hall
      | object h =>
          have hparts := OrderedMap.sameKey_imp_of_mem h fun part hp _ => ih part hp
          refine .object (OrderedMap.sameKey_ofList ?_)
          rw [normalizeProperties_eq_map, normalizeProperties_eq_map, List.forall₂_map_left_iff,
            List.forall₂_map_right_iff]
          refine hparts.imp ?_
          rintro _ _ ⟨key, h⟩
          exact ⟨key, h⟩

theorem propertiesAdmit_mono {properties properties' : List (String × Shape)}
    (h : List.Forall₂ (SameKey fun shape shape' => ∀ value, shape.Admits value →
      shape'.Admits value) properties properties')
    {members : List (String × Json)} (ha : PropertiesAdmit properties members) :
    PropertiesAdmit properties' members := by
  induction h with
  | nil => trivial
  | cons hproperty hrest ih =>
      obtain ⟨key, hshape⟩ := hproperty
      obtain ⟨hfirst, ha⟩ := ha
      refine ⟨fun hkey => ?_, ih ha⟩
      rw [← OrderedMap.keys_eq_of_sameKey hrest] at hkey
      obtain ⟨value, hl, hv⟩ := hfirst hkey
      exact ⟨value, hl, hshape value hv⟩

/-- Every value of a shape is a value of the shapes that it refines. -/
theorem Refines.admits {exact plain : Shape} (h : exact.Refines p plain) {value : Json}
    (ha : exact.Admits value) : plain.Admits value := by
  induction exact using induction generalizing plain value with
  | step exact ih =>
      cases h with
      | boolean | string | number | literal | reference => exact ha
      | exact h => exact ⟨_, ha⟩
      | list h =>
          obtain ⟨elements, hv, helements⟩ := ha
          exact ⟨elements, hv, fun element he =>
            ih _ (List.mem_singleton_self _) h (helements element he)⟩
      | nullable h => exact ha.imp_right (ih _ (List.mem_singleton_self _) h)
      | union h =>
          obtain ⟨member, hm, ha⟩ := anyAdmits_iff.mp ha
          obtain ⟨member', hm', h⟩ := exists_of_mem_forall₂ h.flip hm
          exact anyAdmits_iff.mpr ⟨member', hm', ih member hm h ha⟩
      | intersection h =>
          refine allAdmit_iff.mpr fun member' hm' => ?_
          obtain ⟨member, hm, h⟩ := exists_of_mem_forall₂ h hm'
          exact ih member hm h (allAdmit_iff.mp ha member hm)
      | object h =>
          obtain ⟨members, hv, ha⟩ := ha
          refine ⟨members, hv, propertiesAdmit_mono ?_ ha⟩
          exact OrderedMap.sameKey_imp_of_mem h fun part hp _ h _ => ih part hp h

/-! ### Shapes of types -/

theorem refines_wrapped (wrapping : List Wrapper) (nullable never : Bool) {core core' : Shape}
    (h : core.Refines p core') :
    (wrapped wrapping nullable never core).Refines p (wrapped wrapping nullable never core') := by
  have horNull (nullable : Bool) {shape shape' : Shape} (h : shape.Refines p shape') :
      (orNull nullable shape).Refines p (orNull nullable shape') := by
    cases nullable with
    | false => exact h
    | true => exact .nullable h
  induction wrapping generalizing nullable with
  | nil => exact horNull _ h
  | cons wrapper inner ih =>
      cases wrapper with
      | list => exact horNull _ (.list (ih true))
      | notNull => exact ih false

theorem refines_ofTypename {possible : List String} (h : ∀ single, possible = [single] → p single) :
    (ofTypename true possible).Refines p (ofTypename false possible) := by
  match possible with
  | [] => exact .string
  | [single] => exact .exact (h single rfl)
  | _ :: _ :: _ => exact .refl _

theorem refines_ofParts {properties properties' : List (String × Shape)}
    {branches branches' : List Shape}
    (hp : List.Forall₂ (SameKey (Refines p)) properties properties')
    (hb : List.Forall₂ (Refines p) branches branches') :
    (ofParts properties branches).Refines p (ofParts properties' branches') := by
  cases hb with
  | nil => cases hp with
    | nil => exact .refl anyObject
    | cons hproperty hrest => exact .object (.cons hproperty hrest)
  | cons hbranch hothers => cases hp with
    | nil => exact .union (.cons hbranch hothers)
    | cons hproperty hrest =>
        exact .intersection (.cons (.object (.cons hproperty hrest))
          (.cons (.union (.cons hbranch hothers)) .nil))

end Shape

/-! ### Where the names of types are asked for -/

/-- Somewhere in the selection, the name of the type is selected on `on`. -/
inductive Selection.AsksTypename {ρ : Type} (on : String) : Selection ρ → Prop where
  | here {selection : Selection ρ} {field : Field (Selection ρ)} (h : selection.on = on)
      (hf : field ∈ selection.fields) (ht : field.type.core = .typename) : AsksTypename on selection
  | nested {selection inner : Selection ρ} {field : Field (Selection ρ)}
      (hf : field ∈ selection.fields) (hn : field.nested? = some inner)
      (h : AsksTypename on inner) : AsksTypename on selection
  | branch {selection inner : Selection ρ} (hb : inner ∈ selection.branches)
      (h : AsksTypename on inner) : AsksTypename on selection

namespace Schema

def AsksTypename (schema : Schema) (maxDepth : Nat) (document : Source.Document) (on : String) :
    Prop :=
  ∃ resolved, schema.resolve maxDepth document = .ok resolved ∧
    ((∃ operation ∈ resolved.operations, operation.selection.AsksTypename on) ∨
      ∃ name fragment, resolved.fragments.find? name = some fragment ∧ fragment.AsksTypename on)

def OnlyType (schema : Schema) (asked : String → Prop) (type : String) : Prop :=
  ∃ on, asked on ∧ schema.possibleTypes on = [type]

end Schema

theorem Selection.everywhere_of_asksTypename {ρ : Type} {schema : Schema} {asked : String → Prop}
    {selection : Selection ρ} (hs : selection.Typed schema)
    (h : ∀ on, selection.AsksTypename on → asked on) :
    selection.Everywhere schema.Scopes fun on field => field.type.core = .typename → asked on := by
  induction hs with
  | @intro selection here _ _ _ ihNested ihBranch =>
      refine ⟨here, fun field hf ht => h _ (.here rfl hf ?_), fun field hf inner hn => ?_,
        fun branch hb => ?_⟩
      · obtain ⟨key, wrapping, core⟩ := field
        cases core with
        | typename => rfl
        | scalar | enum | selection => cases ht
      · exact ihNested field hf inner hn fun on ha => h on (.nested hf hn ha)
      · exact ihBranch branch hb fun on ha => h on (.branch hb ha)

theorem Schema.everywhere_asked {schema : Schema} {maxDepth : Nat} {document : Source.Document}
    {resolved : Resolved} (h : schema.resolve maxDepth document = .ok resolved) :
    let asked := schema.AsksTypename maxDepth document
    (∀ operation ∈ resolved.operations, operation.selection.Everywhere schema.Scopes
      fun on field => field.type.core = .typename → asked on) ∧
    ∀ name fragment, resolved.fragments.find? name = some fragment →
      fragment.Everywhere schema.Scopes fun on field => field.type.core = .typename → asked on := by
  have htyped := typed_resolve h
  refine ⟨fun operation ho => ?_, fun name fragment hf => ?_⟩
  · refine Selection.everywhere_of_asksTypename (htyped.operations operation ho) fun on ha => ?_
    exact ⟨resolved, h, .inl ⟨operation, ho, ha⟩⟩
  · refine Selection.everywhere_of_asksTypename (htyped.fragments name fragment hf) fun on ha => ?_
    exact ⟨resolved, h, .inr ⟨name, fragment, hf, ha⟩⟩

/-! ### Shapes of selections -/

namespace Selection

variable {p : String → Prop} {maxDepth : Nat}

theorem refines_withFallback (selection : LinkedSelection) {branches branches' : List Shape}
    (h : List.Forall₂ (Shape.Refines p) branches branches') :
    List.Forall₂ (Shape.Refines p) (withFallback selection branches)
      (withFallback selection branches') := by
  have hempty : branches.isEmpty = branches'.isEmpty := by cases h <;> rfl
  rw [withFallback, withFallback, hempty]
  split
  · exact h
  · exact List.rel_append h (.cons (.refl .anyObject) .nil)

/-- A selection has one shape with and without exact type names, but for the names of single
types. -/
theorem refines_shape {schema : Schema} {asked : String → Prop} {selection : LinkedSelection}
    (h : selection.Everywhere schema.Scopes fun on field =>
      field.type.core = .typename → asked on) :
    (selection.shape ⟨maxDepth, true⟩).Refines (schema.OnlyType asked)
      (selection.shape ⟨maxDepth, false⟩) := by
  induction selection using Selection.induction with
  | step selection ihNested ihBranch =>
      obtain ⟨⟨_, hpossible⟩, hfields, hbranches⟩ := everywhere_iff.mp h
      rw [shape_eq, shape_eq]
      refine Shape.refines_ofParts ?_ (refines_withFallback selection ?_)
      · rw [List.forall₂_map_left_iff, List.forall₂_map_right_iff]
        refine List.forall₂_same.mpr fun field hf => ⟨field.key, ?_⟩
        obtain ⟨hasked, hnested⟩ := hfields field hf
        obtain ⟨key, wrapping, core⟩ := field
        cases core with
        | scalar name => exact .refl _
        | enum values => exact .refl _
        | typename =>
            refine Shape.refines_wrapped _ _ _ (Shape.refines_ofTypename fun type hs => ?_)
            exact ⟨selection.on, hasked rfl, hpossible.symm.trans hs⟩
        | selection nested =>
            exact Shape.refines_wrapped _ _ _ (ihNested _ hf nested rfl (hnested nested rfl))
      · rw [List.forall₂_map_left_iff, List.forall₂_map_right_iff]
        exact List.forall₂_same.mpr fun branch hb => ihBranch branch hb (hbranches branch hb)

end Selection

/-! ### Signatures -/

/-- Signatures of which the first refines the result of the second and has all else in common. -/
structure Signature.Refines (p : String → Prop) (exact plain : Signature) : Prop where
  kind : exact.kind = plain.kind
  name? : exact.name? = plain.name?
  vars : exact.vars = plain.vars
  result : exact.result.Refines p plain.result

theorem Operation.agree_signature {schema : Schema} {asked : String → Prop} {maxDepth : Nat}
    {operation : Operation LinkedSelection}
    (h : operation.selection.Everywhere schema.Scopes fun on field =>
      field.type.core = .typename → asked on) :
    Agree (Signature.Refines (schema.OnlyType asked)) (operation.signature ⟨maxDepth, true⟩)
      (operation.signature ⟨maxDepth, false⟩) := by
  unfold signature
  rw [Selection.shapeAt_eq, Selection.shapeAt_eq, bind_assoc, bind_assoc]
  refine .bind_same _ fun _ => .done ?_
  exact ⟨rfl, rfl, rfl, (Selection.refines_shape h).normalize⟩

/-- A document is refused with the same error with and without exact type names, or it has
signatures both times that agree on kinds, names and variables. Their results then differ only in
strings that exact type names turn into literals, each the only possible type where the document
asks for the type's name; so what the result admits with exact type names, it admits without. -/
theorem Schema.signatures_refine (schema : Schema) (maxDepth : Nat) (document : Source.Document) :
    Agree
      (List.Forall₂ fun exact plain =>
        exact.Refines (schema.OnlyType (schema.AsksTypename maxDepth document)) plain ∧
          ∀ value, exact.result.Admits value → plain.result.Admits value)
      (schema.signatures { maxDepth, exactTypename := true } document)
      (schema.signatures { maxDepth, exactTypename := false } document) := by
  unfold Schema.signatures
  refine .bind_same_of_ok fun resolved hr => .bind_same_of_ok fun linked hl => ?_
  have hasks := resolved.everywhere_link (everywhere_asked hr).1 (everywhere_asked hr).2 hl
  refine .mapM (List.forall₂_same.mpr (List.forall_mem_map.mpr fun operation ho => ?_))
  refine (Operation.agree_signature ?_).imp fun exact plain h => ⟨h, fun value => h.result.admits⟩
  exact Selection.everywhere_flatten (hasks operation ho)

end QueryShape
