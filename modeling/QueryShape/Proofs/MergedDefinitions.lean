import QueryShape.Proofs.FirstOccurrences
import QueryShape.Proofs.PossibleTypes
import QueryShape.Proofs.ResolveSteps

/-!
# Merged definitions

A type is its last definition together with all extensions of its kind, wherever these stand. It has
the place of its first definition.
-/

namespace QueryShape

/-! ### Maps -/

namespace OrderedMap

variable {α : Type}

/-- Each key is there once, at the place where it is first written and with the value that is
written last. -/
structure KeepsLast (map : OrderedMap α) (written : List (String × α)) : Prop where
  keys : map.keys = (written.map Prod.fst).eraseDups
  last : ∀ key, map.find? key = written.reverse.lookup key

theorem keepsLast_ofList (written : List (String × α)) : (ofList written).KeepsLast written :=
  ⟨keys_ofList written, find?_ofList written⟩

theorem KeepsLast.eq_ofList {map : OrderedMap α} {written : List (String × α)}
    (h : map.KeepsLast written) : map = ofList written := by
  apply eq_of_find?
  · rw [h.keys, keys_ofList]
  · intro key
    rw [h.last, find?_ofList]

theorem KeepsLast.insertAll {map : OrderedMap α} {written : List (String × α)}
    (h : map.KeepsLast written) (more : List (String × α)) :
    (map.insertAll more).KeepsLast (written ++ more) := by
  have hmap : map.insertAll more = ofList (written ++ more) := by
    rw [h.eq_ofList, ofList, ofList, insertAll_append]
  rw [hmap]
  exact keepsLast_ofList _

theorem keys_modify (map : OrderedMap α) (key : String) (f : α → α) :
    (map.modify key f).keys = map.keys := by
  unfold modify
  split
  · next value hf => rw [keys_insert, if_pos (mem_keys_of_find? hf)]
  · rfl

theorem find?_modify (map : OrderedMap α) (key name : String) (f : α → α) :
    (map.modify key f).find? name =
      if name = key then (map.find? name).map f else map.find? name := by
  unfold modify
  split
  · next value hf =>
    rw [find?_insert]
    by_cases hn : name = key
    · rw [if_pos hn, if_pos hn, hn, hf]
      rfl
    · rw [if_neg hn, if_neg hn]
  · next hf =>
    by_cases hn : name = key
    · rw [if_pos hn, hn, hf]
      rfl
    · rw [if_neg hn]

end OrderedMap

/-! ### One type -/

namespace TypeBody

open Source (FieldList)

variable {φ ψ χ : Type}

def sameKind : TypeBody φ → TypeBody ψ → Bool
  | .scalar, .scalar | .object .., .object .. | .interface _, .interface _ | .union _, .union _
  | .enum _, .enum _ | .input _, .input _ => true
  | _, _ => false

def anyFields? : TypeBody φ → Option φ
  | .object fields _ | .interface fields | .input fields => some fields
  | .scalar | .union _ | .enum _ => none

def listed : TypeBody φ → List String
  | .object _ interfaces => interfaces
  | .union members => members
  | .enum values => values
  | .scalar | .interface _ | .input _ => []

/-- What parts of one kind make together: of each field the type written last, at the place where
the field is first written, and all names that they list. -/
structure MergedFrom (parts : List (TypeBody FieldList)) (merged : TypeBody FieldMap) : Prop where
  kind : ∀ part ∈ parts, merged.sameKind part
  fields : ∀ fields, merged.anyFields? = some fields →
    fields.KeepsLast (parts.flatMap fun part => part.anyFields?.getD [])
  listed : merged.listed = parts.flatMap TypeBody.listed

theorem sameKind_refl (body : TypeBody φ) : body.sameKind body := by
  cases body <;> rfl

theorem sameKind_map (body : TypeBody φ) (f : φ → ψ) (other : TypeBody χ) :
    (body.map f).sameKind other = body.sameKind other := by
  cases body <;> cases other <;> rfl

theorem sameKind_extend (body : TypeBody FieldMap) (more : TypeBody FieldList)
    (other : TypeBody χ) : (body.extend more).sameKind other = body.sameKind other := by
  cases body <;> cases more <;> cases other <;> rfl

theorem extend_of_not_sameKind {body : TypeBody FieldMap} {more : TypeBody FieldList}
    (h : ¬ body.sameKind more) : body.extend more = body := by
  cases body <;> cases more <;> first | rfl | exact absurd rfl h

theorem mergedFrom_map (body : TypeBody FieldList) :
    MergedFrom [body] (body.map OrderedMap.ofList) where
  kind part hp := by
    rw [List.mem_singleton.mp hp, sameKind_map]
    exact sameKind_refl body
  fields fields hf := by
    rw [List.flatMap_singleton]
    cases body with
    | object written _ | interface written | input written =>
        cases hf
        exact OrderedMap.keepsLast_ofList written
    | scalar | union | enum => cases hf
  listed := by
    rw [List.flatMap_singleton]
    cases body <;> rfl

variable {parts : List (TypeBody FieldList)} {merged : TypeBody FieldMap}

/-- An extension of the same kind is one part more. -/
theorem MergedFrom.extend (h : MergedFrom parts merged) {more : TypeBody FieldList}
    (hk : merged.sameKind more) : MergedFrom (parts ++ [more]) (merged.extend more) where
  kind part hp := by
    rw [sameKind_extend]
    rcases List.mem_append.mp hp with hp | hp
    · exact h.kind part hp
    · rw [List.mem_singleton.mp hp]
      exact hk
  fields fields hf := by
    rw [List.flatMap_append, List.flatMap_singleton]
    cases merged with
    | object held _ | interface held | input held =>
        cases more <;> cases hk
        cases hf
        exact (h.fields held rfl).insertAll _
    | scalar | union | enum =>
        cases more <;> cases hk
        cases hf
  listed := by
    rw [List.flatMap_append, List.flatMap_singleton, ← h.listed]
    cases merged <;> cases more <;> cases hk <;> rfl

theorem MergedFrom.foldl (h : MergedFrom parts merged) (extensions : List (TypeBody FieldList)) :
    MergedFrom (parts ++ extensions.filter merged.sameKind)
      (extensions.foldl TypeBody.extend merged) := by
  induction extensions generalizing parts merged with
  | nil => simpa using h
  | cons more rest ih =>
      rw [List.foldl_cons]
      by_cases hk : merged.sameKind more
      · have hkind : (merged.extend more).sameKind = merged.sameKind (ψ := FieldList) :=
          funext (sameKind_extend merged more)
        have hrest := ih (h.extend hk)
        rw [hkind, List.append_assoc, List.singleton_append] at hrest
        rwa [List.filter_cons_of_pos hk]
      · rw [List.filter_cons_of_neg hk, extend_of_not_sameKind hk]
        exact ih h

end TypeBody

/-! ### What a text says -/

namespace Source

open TypeBody (MergedFrom)

namespace SystemDefinition

def isExtension : SystemDefinition → Bool
  | .extension _ => true
  | .schema _ | .type _ | .directive => false

end SystemDefinition

namespace SystemDocument

variable (document : SystemDocument)

def typeNames : List String :=
  document.filterMap fun
    | .type type => some type.name
    | _ => none

def definitionsOf (name : String) : List (TypeBody FieldList) :=
  document.filterMap fun
    | .type type => if type.name = name then some type.body else none
    | _ => none

def extensionsOf (name : String) : List (TypeBody FieldList) :=
  document.filterMap fun
    | .extension extension => if extension.name = name then some extension.body else none
    | _ => none

/-- What a name stands for: its last definition merged with the extensions of the same kind, a
scalar that is built in, or nothing. -/
inductive Specifies (name : String) : Option (TypeDefinition FieldMap) → Prop where
  | written {last : TypeBody FieldList} {merged : TypeBody FieldMap}
      (hl : (document.definitionsOf name).getLast? = some last)
      (hm : MergedFrom (last :: (document.extensionsOf name).filter last.sameKind) merged) :
      Specifies name (some ⟨name, merged⟩)
  | builtin (hn : document.definitionsOf name = []) (hb : name ∈ Schema.builtinScalars) :
      Specifies name (some ⟨name, .scalar⟩)
  | unknown (hn : document.definitionsOf name = []) (hb : name ∉ Schema.builtinScalars) :
      Specifies name none

/-- The same definitions and the same extensions, each in the same order: only where extensions
stand among the definitions is different. -/
structure MovesExtensions (document moved : SystemDocument) : Prop where
  extensions : moved.filter SystemDefinition.isExtension =
    document.filter SystemDefinition.isExtension
  others : moved.filter (!·.isExtension) = document.filter (!·.isExtension)

end SystemDocument
end Source

namespace Schema

open Source (SystemDocument SystemDefinition)
open TypeBody (MergedFrom)

/-- The possible types of a name: the members of a union, the object types that list an interface,
each once and in definition order, or else the name alone. -/
inductive HasPossible (schema : Schema) (name : String) : List String → Prop where
  | union {members : List String} (hb : schema.Defines name (.union members)) :
      HasPossible schema name members
  | interface {fields : FieldMap} {types : List String}
      (hb : schema.Defines name (.interface fields))
      (nodup : types.Nodup) (order : types.Sublist schema.definitions.keys)
      (mem : ∀ type, type ∈ types ↔ ∃ fields interfaces,
        schema.Defines type (.object fields interfaces) ∧ name ∈ interfaces) :
      HasPossible schema name types
  | itself (hb : ∀ body, schema.Defines name body → body.isAbstract = false) :
      HasPossible schema name [name]

/-! ### The passes over a text -/

theorem keys_declared (document : SystemDocument) :
    (declared document).keys = document.typeNames.eraseDups := by
  rw [declared, OrderedMap.keys_ofList, List.map_filterMap]
  congr 2
  funext definition
  cases definition <;> rfl

theorem declared_concat (document : SystemDocument) (definition : SystemDefinition) :
    declared (document ++ [definition]) =
      match definition with
      | .type type => (declared document).insert type.name
          ⟨type.name, type.body.map OrderedMap.ofList⟩
      | _ => declared document := by
  unfold declared
  rw [List.filterMap_append]
  cases definition with
  | type type => exact OrderedMap.insertAll_append ∅ _ _
  | schema | extension | directive =>
      rw [List.filterMap_cons_none rfl, List.filterMap_nil, List.append_nil]

theorem find?_declared (document : SystemDocument) (name : String) :
    (declared document).find? name = (document.definitionsOf name).getLast?.map fun last =>
      ⟨name, last.map OrderedMap.ofList⟩ := by
  induction document using List.reverseRecOn with
  | nil => rfl
  | append_singleton document definition ih =>
      rw [declared_concat, SystemDocument.definitionsOf, List.filterMap_append]
      cases definition with
      | type type =>
          rw [OrderedMap.find?_insert, ih]
          by_cases hn : type.name = name
          · simp [hn]
          · have hn' : ¬ name = type.name := fun h => hn h.symm
            simp [hn, hn', SystemDocument.definitionsOf]
      | schema | extension | directive =>
          rw [List.filterMap_cons_none rfl, List.filterMap_nil, List.append_nil]
          exact ih

theorem keys_extended (document : SystemDocument) (types : OrderedMap (TypeDefinition FieldMap)) :
    (extended document types).keys = types.keys := by
  unfold extended
  apply List.foldlRecOn (motive := fun extended : OrderedMap (TypeDefinition FieldMap) =>
    extended.keys = types.keys) document _ rfl
  intro types' h definition _
  cases definition with
  | extension extension => exact (OrderedMap.keys_modify _ _ _).trans h
  | schema | type | directive => exact h

theorem find?_extended (document : SystemDocument) (types : OrderedMap (TypeDefinition FieldMap))
    (name : String) :
    (extended document types).find? name = (types.find? name).map fun type =>
      { type with body := (document.extensionsOf name).foldl TypeBody.extend type.body } := by
  induction document generalizing types with
  | nil => exact Option.map_id'.symm
  | cons definition document ih =>
      cases definition with
      | extension extension =>
          have hstep : extended (.extension extension :: document) types = extended document
              (types.modify extension.name fun type =>
                { type with body := type.body.extend extension.body }) := rfl
          rw [hstep, ih, OrderedMap.find?_modify]
          by_cases hn : extension.name = name
          · rw [if_pos hn.symm, Option.map_map]
            simp [SystemDocument.extensionsOf, hn, Function.comp_def]
          · rw [if_neg fun h => hn h.symm]
            simp [SystemDocument.extensionsOf, hn]
      | schema | type | directive => exact ih types

theorem foldl_addScalar {names : List String} (hn : names.Nodup)
    (types : OrderedMap (TypeDefinition FieldMap)) :
    (names.foldl addScalar types).keys = types.keys ++ names.filter (· ∉ types.keys) ∧
      ∀ name, (names.foldl addScalar types).find? name =
        (types.find? name).or (if name ∈ names then some ⟨name, .scalar⟩ else none) := by
  induction names generalizing types with
  | nil => simp
  | cons first rest ih =>
      obtain ⟨hfirst, hrest⟩ := List.nodup_cons.mp hn
      rw [List.foldl_cons]
      by_cases hf : first ∈ types.keys
      · have hc : types.contains first = true := List.contains_iff_mem.mpr hf
        obtain ⟨hkeys, hfind⟩ := ih hrest types
        rw [addScalar, if_pos hc]
        refine ⟨by simpa [hf] using hkeys, fun name => (hfind name).trans ?_⟩
        by_cases hname : name = first
        · obtain ⟨type, ht⟩ := OrderedMap.mem_keys_iff.mp hf
          rw [hname, ht]
          rfl
        · simp [hname]
      · have hc : ¬ types.contains first = true := fun h => hf (List.contains_iff_mem.mp h)
        obtain ⟨hkeys, hfind⟩ := ih hrest (types.insert first ⟨first, .scalar⟩)
        rw [addScalar, if_neg hc]
        refine ⟨hkeys.trans ?_, fun name => (hfind name).trans ?_⟩
        · rw [OrderedMap.keys_insert, if_neg hf, List.filter_cons_of_pos (by simpa using hf),
            List.append_assoc, List.singleton_append]
          congr 2
          apply List.filter_congr
          intro name hname
          have hne : name ≠ first := fun h => hfirst (h ▸ hname)
          simp [hne]
        · rw [OrderedMap.find?_insert]
          by_cases hname : name = first
          · have hnone : types.find? first = none := by
              rw [Option.eq_none_iff_forall_ne_some]
              exact fun type ht => hf (OrderedMap.mem_keys_of_find? ht)
            simp [hname, hnone]
          · simp [hname]

theorem nodup_builtinScalars : builtinScalars.Nodup := by decide

theorem keys_withBuiltins (types : OrderedMap (TypeDefinition FieldMap)) :
    (withBuiltins types).keys = types.keys ++ builtinScalars.filter (· ∉ types.keys) :=
  (foldl_addScalar nodup_builtinScalars types).1

theorem find?_withBuiltins (types : OrderedMap (TypeDefinition FieldMap)) (name : String) :
    (withBuiltins types).find? name =
      (types.find? name).or (if name ∈ builtinScalars then some ⟨name, .scalar⟩ else none) :=
  (foldl_addScalar nodup_builtinScalars types).2 name

/-! ### The schema of a text -/

variable (document : SystemDocument)

theorem keys_ofDocument : (ofDocument document).definitions.keys =
    document.typeNames.eraseDups ++ builtinScalars.filter (· ∉ document.typeNames) := by
  rw [ofDocument, keys_withBuiltins, keys_extended, keys_declared]
  simp only [List.mem_eraseDups]

theorem specifies_definition? (name : String) :
    document.Specifies name ((ofDocument document).definition? name) := by
  rw [definition?, ofDocument, find?_withBuiltins, find?_extended, find?_declared]
  cases hl : (document.definitionsOf name).getLast? with
  | none =>
      have hn := List.getLast?_eq_none_iff.mp hl
      by_cases hb : name ∈ builtinScalars
      · rw [if_pos hb]
        exact .builtin hn hb
      · rw [if_neg hb]
        exact .unknown hn hb
  | some last =>
      have hm := (TypeBody.mergedFrom_map last).foldl (document.extensionsOf name)
      have hkind : (last.map OrderedMap.ofList).sameKind = last.sameKind (ψ := Source.FieldList) :=
        funext (TypeBody.sameKind_map last OrderedMap.ofList)
      rw [hkind] at hm
      exact .written hl hm

/-- An object type is among the implementations of just the interfaces that it lists. -/
theorem mem_implementations_iff {schema : Schema} (h : Named schema.definitions)
    {name type : String} : type ∈ schema.implementations name ↔
      ∃ fields interfaces, schema.Defines type (.object fields interfaces) ∧ name ∈ interfaces := by
  unfold implementations
  rw [List.mem_filterMap]
  constructor
  · rintro ⟨⟨key, definition⟩, he, hf⟩
    have hfound := OrderedMap.find?_eq_some_iff.mpr he
    have hname := h key definition hfound
    simp only at hf
    split at hf
    · next fields interfaces hb =>
      split at hf
      · next hi =>
        cases hf
        rw [hname]
        exact ⟨fields, interfaces, ⟨definition, hfound, hb⟩, List.contains_iff_mem.mp hi⟩
      · cases hf
    · cases hf
  · rintro ⟨fields, interfaces, ⟨definition, hfound, hb⟩, hi⟩
    refine ⟨(type, definition), OrderedMap.find?_eq_some_iff.mp hfound, ?_⟩
    simp [hb, hi, h type definition hfound]

theorem hasPossible_possibleTypes (name : String) :
    (ofDocument document).HasPossible name ((ofDocument document).possibleTypes name) := by
  have hnamed := named_ofDocument document
  unfold possibleTypes
  cases hd : (ofDocument document).definition? name with
  | none =>
      refine .itself fun body hb => ?_
      obtain ⟨definition, hdefinition, -⟩ := hb
      rw [hd] at hdefinition
      cases hdefinition
  | some definition =>
      have hdefines : (ofDocument document).Defines name definition.body := ⟨definition, hd, rfl⟩
      rw [Option.map_some]
      cases hb : definition.body with
      | union members =>
          rw [hb] at hdefines
          exact .union hdefines
      | interface fields =>
          rw [hb] at hdefines
          have horder := implementations_sublist hnamed name
          exact .interface hdefines (horder.nodup (ofDocument document).definitions.nodup) horder
            fun type => mem_implementations_iff hnamed
      | scalar | object | enum | input =>
          rw [hb] at hdefines
          refine .itself fun body hbody => ?_
          rw [hbody.unique hdefines]
          rfl

/-! ### Moving extensions -/

variable {document}

theorem declared_filter : declared (document.filter (!·.isExtension)) = declared document := by
  unfold declared
  rw [List.filterMap_filter]
  congr 2
  funext definition
  cases definition <;> rfl

theorem extended_filter (types : OrderedMap (TypeDefinition FieldMap)) :
    extended (document.filter SystemDefinition.isExtension) types = extended document types := by
  unfold extended
  rw [List.foldl_filter]
  congr 1
  funext types definition
  cases definition <;> rfl

theorem writtenRoots?_filter :
    writtenRoots? (document.filter (!·.isExtension)) = writtenRoots? document := by
  induction document with
  | nil => rfl
  | cons definition document ih =>
      cases definition with
      | schema roots => rfl
      | type | extension | directive => exact ih

theorem ofDocument_eq_of_movesExtensions {moved : SystemDocument}
    (h : document.MovesExtensions moved) : ofDocument moved = ofDocument document := by
  have hdeclared : declared moved = declared document := by
    rw [← declared_filter, h.others, declared_filter]
  have hextended (types : OrderedMap (TypeDefinition FieldMap)) :
      extended moved types = extended document types := by
    rw [← extended_filter, h.extensions, extended_filter]
  have hroots : writtenRoots? moved = writtenRoots? document := by
    rw [← writtenRoots?_filter, h.others, writtenRoots?_filter]
  rw [ofDocument, ofDocument, hdeclared, hextended, hroots]

/-- The schema of a text defines just the names that the text defines, in the order of their first
definitions, and behind them the built-in scalars that it does not define. Every type is held under
its own name and is the last definition of that name with the extensions of its kind. Possible types
are read off these definitions, and no extension matters by where it stands among definitions. -/
theorem ofDocument_merges (document : SystemDocument) :
    ((ofDocument document).definitions.keys =
        document.typeNames.eraseDups ++ builtinScalars.filter (· ∉ document.typeNames) ∧
      (∀ entry ∈ (ofDocument document).definitions.entries, entry.2.name = entry.1) ∧
      ∀ name, document.Specifies name ((ofDocument document).definition? name) ∧
        (ofDocument document).HasPossible name ((ofDocument document).possibleTypes name)) ∧
      ∀ moved, document.MovesExtensions moved → ofDocument moved = ofDocument document := by
  refine ⟨⟨keys_ofDocument document, fun entry he => ?_, fun name => ⟨?_, ?_⟩⟩, fun moved h => ?_⟩
  · exact named_ofDocument document entry.1 entry.2 (OrderedMap.find?_eq_some_iff.mpr he)
  · exact specifies_definition? document name
  · exact hasPossible_possibleTypes document name
  · exact ofDocument_eq_of_movesExtensions h

/-- A dog is defined twice. It is a pet by an extension in front of both, which also gives its name
another type; an enum of the same name is no extension of it. -/
def kennel : SystemDocument :=
  [.extension ⟨"Dog", .object [("name", ⟨[.notNull], "String"⟩)] ["Pet"]⟩,
    .extension ⟨"Dog", .enum ["REX"]⟩,
    .type ⟨"Dog", .object [("age", ⟨[], "Int"⟩)] []⟩,
    .type ⟨"Pet", .interface [("name", ⟨[], "String"⟩)]⟩,
    .type ⟨"Dog", .object [("name", ⟨[], "ID"⟩), ("owner", ⟨[], "ID"⟩)] []⟩]

def kennelMoved : SystemDocument :=
  [.type ⟨"Dog", .object [("age", ⟨[], "Int"⟩)] []⟩,
    .extension ⟨"Dog", .object [("name", ⟨[.notNull], "String"⟩)] ["Pet"]⟩,
    .type ⟨"Pet", .interface [("name", ⟨[], "String"⟩)]⟩,
    .type ⟨"Dog", .object [("name", ⟨[], "ID"⟩), ("owner", ⟨[], "ID"⟩)] []⟩,
    .extension ⟨"Dog", .enum ["REX"]⟩]

def dog : TypeDefinition FieldMap where
  name := "Dog"
  body := .object (.ofList [("name", ⟨[.notNull], "String"⟩), ("owner", ⟨[], "ID"⟩)]) ["Pet"]

theorem ofDocument_merges_kennel :
    kennel.MovesExtensions kennelMoved ∧ ofDocument kennelMoved = ofDocument kennel ∧
      ("Dog", dog) ∈ (ofDocument kennel).definitions.entries ∧ dog.name = "Dog" ∧
      (ofDocument kennelMoved).possibleTypes "Pet" = ["Dog"] := by
  have hmoves : kennel.MovesExtensions kennelMoved := ⟨rfl, rfl⟩
  have hentry : ("Dog", dog) ∈ (ofDocument kennel).definitions.entries := by decide
  have hpossible : (ofDocument kennel).possibleTypes "Pet" = ["Dog"] := by decide
  obtain ⟨⟨-, hnames, -⟩, hmoved⟩ := ofDocument_merges kennel
  have hsame := hmoved kennelMoved hmoves
  exact ⟨hmoves, hsame, hentry, hnames _ hentry, hsame ▸ hpossible⟩

end Schema
end QueryShape
