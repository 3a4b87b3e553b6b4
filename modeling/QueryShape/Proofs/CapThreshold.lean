import QueryShape.Proofs.Soundness

/-!
# The cap is a threshold

A step under a cap succeeds from some least cap on, always with one result, and is refused below it
for the cap alone. Resolving, linking and typing are made of such steps.
-/

namespace QueryShape

namespace Outcome

variable {α β : Type}

/-- If the step succeeds under some cap, it does from a least cap on, always with the same result,
and is refused as too deep under every lower cap. -/
def Threshold (step : Nat → Typing α) : Prop :=
  ∀ cap result, step cap = .ok result → ∃ least ≤ cap, ∀ other,
    step other = if least ≤ other then .ok result else .error (.tooDeep other)

theorem threshold_const (x : Typing α) : Threshold fun _ => x := by
  intro cap result h
  exact ⟨0, Nat.zero_le cap, fun other => by rw [if_pos (Nat.zero_le other), h]⟩

theorem threshold_checkDepth (depth : Nat) : Threshold fun cap => checkDepth cap depth := by
  intro cap result h
  refine ⟨depth, checkDepth_eq_ok.mp h, fun other => ?_⟩
  split
  · next hle => exact checkDepth_of_le hle
  · next hlt => exact checkDepth_eq_error.mpr ⟨by omega, rfl⟩

theorem Threshold.bind {first : Nat → Typing α} {second : Nat → α → Typing β}
    (hfirst : Threshold first) (hsecond : ∀ a, Threshold fun cap => second cap a) :
    Threshold fun cap => first cap >>= second cap := by
  intro cap result h
  obtain ⟨a, ha, h⟩ := bind_eq_ok.mp h
  obtain ⟨least, hle, hleast⟩ := hfirst cap a ha
  obtain ⟨least', hle', hleast'⟩ := hsecond a cap result h
  -- Both steps succeed from the higher of the two caps on.
  refine ⟨max least least', by omega, fun other => ?_⟩
  have hother := hleast' other
  dsimp only at hother ⊢
  rw [hleast other]
  by_cases ho : least ≤ other
  · rw [if_pos ho]
    refine hother.trans ?_
    by_cases ho' : least' ≤ other
    · rw [if_pos ho', if_pos (by omega)]
    · rw [if_neg ho', if_neg (by omega)]
  · rw [if_neg ho, if_neg (by omega)]
    rfl

theorem Threshold.mapM {step : Nat → α → Typing β} (h : ∀ a, Threshold fun cap => step cap a)
    (inputs : List α) : Threshold fun cap => inputs.mapM (step cap) := by
  induction inputs with
  | nil => exact threshold_const _
  | cons input rest ih =>
      simp only [List.mapM_cons]
      exact (h input).bind fun output => ih.bind fun outputs => threshold_const _

theorem Threshold.foldlM {step : Nat → β → α → Typing β}
    (h : ∀ state input, Threshold fun cap => step cap state input) (inputs : List α) (start : β) :
    Threshold fun cap => inputs.foldlM (step cap) start := by
  induction inputs generalizing start with
  | nil => exact threshold_const _
  | cons input rest ih =>
      simp only [List.foldlM_cons]
      exact (h start input).bind fun next => ih next

end Outcome

open Outcome

/-! ### Resolving -/

namespace Schema

open Source (Item)

variable (schema : Schema)

theorem threshold_outputCore (type : String) (position : Position)
    {select : Nat → Selection String → Typing (Selection String)}
    (h : ∀ scope, Threshold fun cap => select cap scope) :
    Threshold fun cap => schema.outputCore type position (select cap) := by
  unfold outputCore
  cases schema.definition? type with
  | none => exact threshold_const _
  | some definition =>
      dsimp only
      cases definition.body with
      | scalar => exact threshold_const _
      | enum values => exact threshold_const _
      | input fields => exact threshold_const _
      | object fields interfaces => exact (h _).bind fun _ => threshold_const _
      | interface fields => exact (h _).bind fun _ => threshold_const _
      | union members => exact (h _).bind fun _ => threshold_const _

mutual

theorem threshold_resolveItem (scope : Selection String) (depth : Nat) (item : Item) :
    Threshold fun cap => schema.resolveItem cap scope depth item := by
  match item with
  | .field position alias? name items =>
      simp only [resolveItem]
      split
      · exact threshold_const _
      · cases schema.fieldType? scope.on name with
        | none => exact threshold_const _
        | some type =>
            refine (schema.threshold_outputCore type.core position fun nested => ?_).bind
              fun core => threshold_const _
            split
            · exact threshold_const _
            · exact (threshold_checkDepth (depth + 1)).bind fun _ =>
                threshold_resolveItems nested (depth + 1) items
  | .inline position on? items =>
      simp only [resolveItem]
      refine (threshold_const _).bind fun branch => (threshold_checkDepth (depth + 1)).bind
        fun _ => ?_
      exact (threshold_resolveItems branch (depth + 1) items).bind fun _ => threshold_const _
  | .spread name =>
      simp only [resolveItem]
      exact threshold_const _

theorem threshold_resolveItems (scope : Selection String) (depth : Nat) (items : List Item) :
    Threshold fun cap => schema.resolveItems cap scope depth items := by
  match items with
  | [] =>
      simp only [resolveItems]
      exact threshold_const _
  | item :: rest =>
      simp only [resolveItems]
      exact (threshold_resolveItem scope depth item).bind fun part =>
        (threshold_resolveItems scope depth rest).bind fun selection => threshold_const _

end

theorem threshold_resolveRoot (type : String) (position : Position) (items : List Item) :
    Threshold fun cap => schema.resolveRoot cap type position items := by
  unfold resolveRoot
  exact (threshold_const _).bind fun scope => (threshold_checkDepth 1).bind fun _ =>
    schema.threshold_resolveItems scope 1 items

theorem threshold_resolveDefinition (resolved : Resolved) (definition : Source.Definition) :
    Threshold fun cap => schema.resolveDefinition cap resolved definition := by
  cases definition with
  | operation definition =>
      simp only [resolveDefinition, resolveOperation]
      cases schema.roots.ofKind definition.kind with
      | none => exact threshold_const _
      | some root =>
          refine Threshold.bind ?_ fun operation => threshold_const _
          refine (threshold_const _).bind fun vars => ?_
          exact (schema.threshold_resolveRoot root definition.position definition.items).bind
            fun selection => threshold_const _
  | fragment definition =>
      exact (schema.threshold_resolveRoot definition.on definition.position
        definition.items).bind fun selection => threshold_const _

theorem threshold_resolve (document : Source.Document) :
    Threshold fun cap => schema.resolve cap document :=
  Threshold.foldlM schema.threshold_resolveDefinition document ⟨[], ∅⟩

end Schema

/-! ### Linking -/

namespace Selection

variable (splice : Splice)

theorem threshold_spliceAll (depth : Nat) (names : List String) :
    Threshold fun cap => spliceAll cap splice depth names := by
  induction names with
  | nil => exact threshold_const _
  | cons name rest ih =>
      simp only [spliceAll]
      refine (threshold_const _).bind fun fragment => (threshold_checkDepth _).bind fun _ => ?_
      exact ih.bind fun others => threshold_const _

mutual

theorem threshold_linkAt (depth : Nat) (selection : Selection String) :
    Threshold fun cap => selection.linkAt cap splice depth := by
  match selection with
  | ⟨on, possible, fields, branches, spreads⟩ =>
      simp only [linkAt]
      exact (threshold_checkDepth depth).bind fun _ =>
        (threshold_linkFields (depth + 1) fields).bind fun fields' =>
        (threshold_linkBranches (depth + 1) branches).bind fun branches' =>
        (threshold_spliceAll splice depth spreads).bind fun spliced => threshold_const _

theorem threshold_linkFields (depth : Nat) (fields : List (Field (Selection String))) :
    Threshold fun cap => linkFields cap splice depth fields := by
  match fields with
  | [] =>
      simp only [linkFields]
      exact threshold_const _
  | ⟨key, wrapping, core⟩ :: rest =>
      simp only [linkFields]
      exact (threshold_linkCore depth core).bind fun core' =>
        (threshold_linkFields depth rest).bind fun others => threshold_const _

theorem threshold_linkCore (depth : Nat) (core : OutputCore (Selection String)) :
    Threshold fun cap => linkCore cap splice depth core := by
  match core with
  | .scalar _ | .enum _ | .typename =>
      simp only [linkCore]
      exact threshold_const _
  | .selection nested =>
      simp only [linkCore]
      exact (threshold_linkAt depth nested).bind fun linked => threshold_const _

theorem threshold_linkBranches (depth : Nat) (branches : List (Selection String)) :
    Threshold fun cap => linkBranches cap splice depth branches := by
  match branches with
  | [] =>
      simp only [linkBranches]
      exact threshold_const _
  | branch :: rest =>
      simp only [linkBranches]
      exact (threshold_linkAt depth branch).bind fun linked =>
        (threshold_linkBranches depth rest).bind fun others => threshold_const _

end

end Selection

theorem Fragments.threshold_linkNext (declared : Fragments)
    (state : Fragments × OrderedMap LinkedFragment) (name : String) :
    Threshold fun cap => declared.linkNext cap state name := by
  obtain ⟨waiting, linked⟩ := state
  simp only [linkNext]
  cases waiting.swapRemove? name with
  | none => exact threshold_const _
  | some taken => exact (Selection.threshold_linkAt _ 1 taken.1).bind fun _ => threshold_const _

theorem Resolved.threshold_link (resolved : Resolved) :
    Threshold fun cap => resolved.link cap := by
  unfold link Fragments.linkAll
  refine (threshold_const _).bind fun order => Threshold.bind ?_ fun linked => ?_
  · exact (Threshold.foldlM resolved.fragments.threshold_linkNext order _).bind
      fun state => threshold_const _
  · refine Threshold.mapM (fun operation => ?_) resolved.operations
    exact (Selection.threshold_linkAt _ 1 operation.selection).bind fun _ => threshold_const _

/-! ### Typing -/

namespace Selection

variable (exactTypename : Bool)

mutual

theorem threshold_shapeAt (depth : Nat) (selection : LinkedSelection) :
    Threshold fun cap => selection.shapeAt ⟨cap, exactTypename⟩ depth := by
  match selection with
  | ⟨on, possible, fields, branches, spreads⟩ =>
      simp only [shapeAt]
      exact (threshold_checkDepth depth).bind fun _ =>
        (threshold_propertiesAt possible (depth + 1) fields).bind fun properties =>
        (threshold_shapesAt (depth + 1) branches).bind fun shapes => threshold_const _

theorem threshold_propertiesAt (possible : List String) (depth : Nat)
    (fields : List (Field LinkedSelection)) :
    Threshold fun cap => propertiesAt ⟨cap, exactTypename⟩ possible depth fields := by
  match fields with
  | [] =>
      simp only [propertiesAt]
      exact threshold_const _
  | ⟨key, wrapping, core⟩ :: rest =>
      simp only [propertiesAt]
      exact (threshold_coreShapeAt possible depth wrapping core).bind fun shape =>
        (threshold_propertiesAt possible depth rest).bind fun properties => threshold_const _

theorem threshold_coreShapeAt (possible : List String) (depth : Nat) (wrapping : List Wrapper)
    (core : OutputCore LinkedSelection) :
    Threshold fun cap => coreShapeAt ⟨cap, exactTypename⟩ possible depth wrapping core := by
  match core with
  | .scalar _ | .enum _ | .typename =>
      simp only [coreShapeAt]
      exact threshold_const _
  | .selection nested =>
      simp only [coreShapeAt]
      exact (threshold_shapeAt depth nested).bind fun shape => threshold_const _

theorem threshold_shapesAt (depth : Nat) (branches : List LinkedSelection) :
    Threshold fun cap => shapesAt ⟨cap, exactTypename⟩ depth branches := by
  match branches with
  | [] =>
      simp only [shapesAt]
      exact threshold_const _
  | branch :: rest =>
      simp only [shapesAt]
      exact (threshold_shapeAt depth branch).bind fun shape =>
        (threshold_shapesAt depth rest).bind fun shapes => threshold_const _

end

end Selection

theorem Operation.threshold_signature (exactTypename : Bool)
    (operation : Operation LinkedSelection) :
    Threshold fun cap => operation.signature ⟨cap, exactTypename⟩ := by
  unfold Operation.signature
  exact (Selection.threshold_shapeAt exactTypename 1 operation.selection).bind
    fun shape => threshold_const _

/-- The cap on depth decides nothing but whether a document is refused for it. If the document has
signatures under some cap, it has the same ones from a least cap on, which is not above that one,
and under every lower cap it is refused as too deep. -/
theorem Schema.signatures_threshold (schema : Schema) (exactTypename : Bool)
    (document : Source.Document) {cap : Nat} {result : List Signature}
    (h : schema.signatures ⟨cap, exactTypename⟩ document = .ok result) :
    ∃ least ≤ cap, ∀ other, schema.signatures ⟨other, exactTypename⟩ document =
      if least ≤ other then .ok result else .error (.tooDeep other) := by
  have hsteps : Threshold fun cap => schema.signatures ⟨cap, exactTypename⟩ document := by
    unfold Schema.signatures QueryShape.signatures
    refine (schema.threshold_resolve document).bind fun resolved => ?_
    refine resolved.threshold_link.bind fun linked => ?_
    exact Threshold.mapM (Operation.threshold_signature exactTypename) _
  exact hsteps cap result h

theorem Schema.signatures_threshold_heroDocument :
    heroSchema.signatures ⟨64, false⟩ heroDocument = .ok heroSignatures ∧
      heroSchema.signatures ⟨2, false⟩ heroDocument = .error (.tooDeep 2) ∧
      ∃ least ≤ 64, ∀ other, heroSchema.signatures ⟨other, false⟩ heroDocument =
        if least ≤ other then .ok heroSignatures else .error (.tooDeep other) := by
  have h : heroSchema.signatures ⟨64, false⟩ heroDocument = .ok heroSignatures := by cbv
  have hlow : heroSchema.signatures ⟨2, false⟩ heroDocument = .error (.tooDeep 2) := by cbv
  exact ⟨h, hlow, heroSchema.signatures_threshold false heroDocument h⟩

end QueryShape
