import Mathlib.Algebra.GroupWithZero.Nat
import Mathlib.Algebra.Order.BigOperators.Group.List
import Mathlib.Algebra.Order.Group.Nat
import QueryShape.Flattened
import QueryShape.Proofs.Linking

/-!
# What the linker counts

The linker with a note of each sum of depths and heights that it computes. No figure is greater than
one more than the number of selection sets, as on the way into a selection each set is entered at
most once.
-/

namespace QueryShape

/-! ### Steps with notes -/

/-- What a step comes to, and the figures that it notes until it ends. -/
structure Metered (α : Type) where
  result : Typing α
  figures : List Nat

namespace Metered

variable {α β : Type}

def unmetered (step : Typing α) : Metered α := ⟨step, []⟩

def meter (figure : Nat) : Metered Unit := ⟨.ok (), [figure]⟩

def sum (a b : Nat) : Metered Nat := ⟨.ok (a + b), [a + b]⟩

instance : Monad Metered where
  pure value := unmetered (.ok value)
  bind step next :=
    match step.result with
    | .ok value => ⟨(next value).result, step.figures ++ (next value).figures⟩
    | .error error => ⟨.error error, step.figures⟩

instance : LawfulMonad Metered :=
  LawfulMonad.mk' Metered
    (fun step => by
      obtain ⟨result, figures⟩ := step
      cases result <;> simp [Functor.map, unmetered])
    (fun value next => by simp [bind, pure, unmetered])
    (fun step next after => by
      obtain ⟨result, figures⟩ := step
      cases result with
      | error error => rfl
      | ok value =>
          simp only [bind]
          cases (next value).result <;> simp)

@[simp] theorem result_unmetered (step : Typing α) : (unmetered step).result = step := rfl

@[simp] theorem result_meter (figure : Nat) : (meter figure).result = pure () := rfl

@[simp] theorem result_sum (a b : Nat) : (sum a b).result = pure (a + b) := rfl

@[simp] theorem result_pure (value : α) : (pure value : Metered α).result = pure value := rfl

@[simp] theorem result_bind (step : Metered α) (next : α → Metered β) :
    (step >>= next).result = step.result >>= fun value => (next value).result := by
  obtain ⟨result, figures⟩ := step
  cases result <;> rfl

theorem result_mapM {f : α → Metered β} {g : α → Typing β} (h : ∀ input, (f input).result = g input)
    (inputs : List α) : (inputs.mapM f).result = inputs.mapM g := by
  induction inputs with
  | nil => rfl
  | cons input inputs ih => simp only [List.mapM_cons, result_bind, result_pure, h, ih]

theorem result_foldlM {f : β → α → Metered β} {g : β → α → Typing β}
    (h : ∀ state input, (f state input).result = g state input) (inputs : List α) (start : β) :
    (inputs.foldlM f start).result = inputs.foldlM g start := by
  induction inputs generalizing start with
  | nil => rfl
  | cons input inputs ih => simp only [List.foldlM_cons, result_bind, h, ih]

def Within (bound : Nat) (step : Metered α) : Prop := ∀ figure ∈ step.figures, figure ≤ bound

variable {bound : Nat}

theorem within_unmetered (step : Typing α) : (unmetered step).Within bound := by
  intro figure hf
  cases hf

theorem within_pure (value : α) : (pure value : Metered α).Within bound := within_unmetered _

theorem within_meter {figure : Nat} (h : figure ≤ bound) : (meter figure).Within bound := by
  intro other ho
  rwa [List.mem_singleton.mp ho]

theorem within_sum {a b : Nat} (h : a + b ≤ bound) : (sum a b).Within bound := by
  intro other ho
  rwa [List.mem_singleton.mp ho]

theorem Within.mono {step : Metered α} {bound' : Nat} (h : step.Within bound)
    (hle : bound ≤ bound') : step.Within bound' :=
  fun figure hf => Nat.le_trans (h figure hf) hle

theorem Within.bind {step : Metered α} {next : α → Metered β} (h : step.Within bound)
    (hnext : ∀ value, step.result = .ok value → (next value).Within bound) :
    (step >>= next).Within bound := by
  obtain ⟨result, figures⟩ := step
  cases result with
  | error error => exact h
  | ok value =>
      intro figure hf
      rcases List.mem_append.mp hf with hf | hf
      · exact h figure hf
      · exact hnext value rfl figure hf

theorem within_mapM {f : α → Metered β} {inputs : List α}
    (h : ∀ input ∈ inputs, (f input).Within bound) : (inputs.mapM f).Within bound := by
  induction inputs with
  | nil => exact within_pure []
  | cons input inputs ih =>
      obtain ⟨hinput, hinputs⟩ := List.forall_mem_cons.mp h
      rw [List.mapM_cons]
      exact hinput.bind fun _ _ => (ih hinputs).bind fun _ _ => within_pure _

/-- A step notes no figure above the bound, and the level that it comes to is below it. -/
structure Reaches (bound : Nat) (step : Metered (α × Nat)) : Prop where
  within : step.Within bound
  lt : ∀ value, step.result = .ok value → value.2 < bound

theorem reaches_pure {value : α × Nat} (h : value.2 < bound) :
    (pure value : Metered (α × Nat)).Reaches bound where
  within := within_pure value
  lt other ho := by
    cases ho
    exact h

theorem Reaches.of_bind {step : Metered α} {next : α → Metered (β × Nat)} (h : step.Within bound)
    (hnext : ∀ value, step.result = .ok value → (next value).Reaches bound) :
    (step >>= next).Reaches bound where
  within := h.bind fun value hv => (hnext value hv).within
  lt final hf := by
    rw [result_bind, Outcome.bind_eq_ok] at hf
    obtain ⟨value, hv, hf⟩ := hf
    exact (hnext value hv).lt final hf

theorem within_foldlM {f : β → α → Metered β} {Inv : β → Prop}
    (hstep : ∀ state input, Inv state → (f state input).Within bound ∧
      ∀ next, (f state input).result = .ok next → Inv next)
    (inputs : List α) {start : β} (hstart : Inv start) :
    (inputs.foldlM f start).Within bound ∧
      ∀ final, (inputs.foldlM f start).result = .ok final → Inv final := by
  induction inputs generalizing start with
  | nil =>
      refine ⟨within_pure start, fun final h => ?_⟩
      cases h
      exact hstart
  | cons input inputs ih =>
      obtain ⟨hnotes, hnext⟩ := hstep start input hstart
      rw [List.foldlM_cons]
      refine ⟨hnotes.bind fun next hn => (ih (hnext next hn)).1, fun final h => ?_⟩
      rw [result_bind, Outcome.bind_eq_ok] at h
      obtain ⟨next, hn, h⟩ := h
      exact (ih (hnext next hn)).2 final h

end Metered

def Splice.UpTo (splice : Splice) (height : Nat) : Prop :=
  ∀ name fragment, splice name = .ok fragment → fragment.height ≤ height

/-! ### The linker with notes -/

namespace Selection

open Metered (unmetered sum)

section

variable (maxDepth : Nat) (splice : Splice)

def meteredSpliceAll (depth : Nat) : List String → Metered (List LinkedSelection × Nat)
  | [] => return ([], 0)
  | name :: rest => do
      let fragment ← unmetered (splice name)
      let reached ← sum depth fragment.height
      unmetered (checkDepth maxDepth reached)
      let (others, deepest) ← meteredSpliceAll depth rest
      return (fragment.selection :: others, max reached deepest)

mutual

/-- Links a selection and notes at which depth those directly inside lie, be there any or not. -/
def meteredLinkAt (depth : Nat) : Selection String → Metered (LinkedSelection × Nat)
  | ⟨on, possible, fields, branches, spreads⟩ => do
      unmetered (checkDepth maxDepth depth)
      let below ← sum depth 1
      let (fields, inFields) ← meteredLinkFields below fields
      let (branches, inBranches) ← meteredLinkBranches below branches
      let (spliced, inSpreads) ← meteredSpliceAll maxDepth splice depth spreads
      return (⟨on, possible, fields, branches ++ spliced, []⟩,
        max depth (max inFields (max inBranches inSpreads)))

def meteredLinkFields (depth : Nat) :
    List (Field (Selection String)) → Metered (List (Field LinkedSelection) × Nat)
  | [] => return ([], 0)
  | ⟨key, wrapping, core⟩ :: rest => do
      let (core, inCore) ← meteredLinkCore depth core
      let (others, deepest) ← meteredLinkFields depth rest
      return (⟨key, wrapping, core⟩ :: others, max inCore deepest)

def meteredLinkCore (depth : Nat) :
    OutputCore (Selection String) → Metered (OutputCore LinkedSelection × Nat)
  | .scalar name => return (.scalar name, 0)
  | .enum values => return (.enum values, 0)
  | .typename => return (.typename, 0)
  | .selection nested => do
      let (nested, deepest) ← nested.meteredLinkAt depth
      return (.selection nested, deepest)

def meteredLinkBranches (depth : Nat) :
    List (Selection String) → Metered (List LinkedSelection × Nat)
  | [] => return ([], 0)
  | branch :: rest => do
      let (branch, inBranch) ← branch.meteredLinkAt depth
      let (others, deepest) ← meteredLinkBranches depth rest
      return (branch :: others, max inBranch deepest)

end

/-! ### The notes change nothing -/

open Metered (result_bind result_unmetered result_sum result_pure)

theorem result_meteredSpliceAll (depth : Nat) (names : List String) :
    (meteredSpliceAll maxDepth splice depth names).result =
      spliceAll maxDepth splice depth names := by
  induction names with
  | nil => rfl
  | cons name rest ih =>
      simp only [meteredSpliceAll, spliceAll, result_bind, result_unmetered, result_sum, pure_bind,
        ih]
      rfl

mutual

theorem result_meteredLinkAt (depth : Nat) (selection : Selection String) :
    (meteredLinkAt maxDepth splice depth selection).result =
      linkAt maxDepth splice depth selection := by
  match selection with
  | ⟨on, possible, fields, branches, spreads⟩ =>
      simp only [meteredLinkAt, linkAt, result_bind, result_unmetered, result_sum, pure_bind,
        result_meteredLinkFields _ fields, result_meteredLinkBranches _ branches,
        result_meteredSpliceAll]
      rfl

theorem result_meteredLinkFields (depth : Nat) (fields : List (Field (Selection String))) :
    (meteredLinkFields maxDepth splice depth fields).result =
      linkFields maxDepth splice depth fields := by
  match fields with
  | [] => rfl
  | ⟨key, wrapping, core⟩ :: rest =>
      simp only [meteredLinkFields, linkFields, result_bind, result_meteredLinkCore _ core,
        result_meteredLinkFields _ rest]
      rfl

theorem result_meteredLinkCore (depth : Nat) (core : OutputCore (Selection String)) :
    (meteredLinkCore maxDepth splice depth core).result = linkCore maxDepth splice depth core := by
  match core with
  | .scalar _ | .enum _ | .typename => rfl
  | .selection nested =>
      simp only [meteredLinkCore, linkCore, result_bind, result_meteredLinkAt _ nested]
      rfl

theorem result_meteredLinkBranches (depth : Nat) (branches : List (Selection String)) :
    (meteredLinkBranches maxDepth splice depth branches).result =
      linkBranches maxDepth splice depth branches := by
  match branches with
  | [] => rfl
  | branch :: rest =>
      simp only [meteredLinkBranches, linkBranches, result_bind, result_meteredLinkAt _ branch,
        result_meteredLinkBranches _ rest]
      rfl

end

/-! ### How far the figures go -/

open Metered (Reaches reaches_pure within_unmetered within_sum)

variable {splice} {height : Nat}

theorem reaches_meteredSpliceAll (hs : splice.UpTo height) (depth : Nat) (names : List String) :
    (meteredSpliceAll maxDepth splice depth names).Reaches (depth + height + 1) := by
  induction names with
  | nil => exact reaches_pure (Nat.succ_pos _)
  | cons name rest ih =>
      refine .of_bind (within_unmetered _) fun fragment hf => ?_
      have hheight := hs name fragment hf
      refine .of_bind (within_sum (by omega)) fun reached hr => ?_
      cases hr
      refine .of_bind (within_unmetered _) fun _ _ => .of_bind ih.within fun others ho => ?_
      have hothers := ih.lt others ho
      apply reaches_pure
      dsimp only
      omega

mutual

/-- Inside a selection depths grow by its selection sets at most, and by the height of one
fragment. -/
theorem reaches_meteredLinkAt (hs : splice.UpTo height) (depth : Nat)
    (selection : Selection String) :
    (meteredLinkAt maxDepth splice depth selection).Reaches (depth + selection.count + height) := by
  match selection with
  | ⟨on, possible, fields, branches, spreads⟩ =>
      have hcount : (⟨on, possible, fields, branches, spreads⟩ : Selection String).count =
          1 + (countFields fields + countBranches branches) := count_eq _
      have hfields := reaches_meteredLinkFields hs (Nat.succ_pos depth) fields
      have hbranches := reaches_meteredLinkBranches hs (Nat.succ_pos depth) branches
      have hspreads := reaches_meteredSpliceAll maxDepth hs depth spreads
      refine .of_bind (within_unmetered _) fun _ _ => ?_
      refine .of_bind (within_sum (by omega)) fun below hb => ?_
      cases hb
      refine .of_bind (hfields.within.mono (by omega)) fun fields' hf => ?_
      refine .of_bind (hbranches.within.mono (by omega)) fun branches' hb => ?_
      refine .of_bind (hspreads.within.mono (by omega)) fun spliced hp => ?_
      have hinFields := hfields.lt fields' hf
      have hinBranches := hbranches.lt branches' hb
      have hinSpreads := hspreads.lt spliced hp
      apply reaches_pure
      dsimp only
      omega

theorem reaches_meteredLinkFields (hs : splice.UpTo height) {depth : Nat} (hd : 0 < depth)
    (fields : List (Field (Selection String))) :
    (meteredLinkFields maxDepth splice depth fields).Reaches
      (depth + countFields fields + height) := by
  match fields with
  | [] => exact reaches_pure (by dsimp only; omega)
  | ⟨key, wrapping, core⟩ :: rest =>
      have hcount : countFields (⟨key, wrapping, core⟩ :: rest) =
          countFields [⟨key, wrapping, core⟩] + countFields rest :=
        countFields_append [⟨key, wrapping, core⟩] rest
      have hcore := reaches_meteredLinkCore hs hd key wrapping core
      have hrest := reaches_meteredLinkFields hs hd rest
      refine .of_bind (hcore.within.mono (by omega)) fun core' hc => ?_
      refine .of_bind (hrest.within.mono (by omega)) fun others ho => ?_
      have hinCore := hcore.lt core' hc
      have hothers := hrest.lt others ho
      apply reaches_pure
      dsimp only
      omega

theorem reaches_meteredLinkCore (hs : splice.UpTo height) {depth : Nat} (hd : 0 < depth)
    (key : String) (wrapping : List Wrapper) (core : OutputCore (Selection String)) :
    (meteredLinkCore maxDepth splice depth core).Reaches
      (depth + countFields [⟨key, wrapping, core⟩] + height) := by
  match core with
  | .scalar _ | .enum _ | .typename => exact reaches_pure (by dsimp only; omega)
  | .selection nested =>
      have hnested := reaches_meteredLinkAt hs depth nested
      rw [countFields, countFields, Nat.add_zero]
      exact .of_bind hnested.within fun value hv => reaches_pure (hnested.lt value hv)

theorem reaches_meteredLinkBranches (hs : splice.UpTo height) {depth : Nat} (hd : 0 < depth)
    (branches : List (Selection String)) :
    (meteredLinkBranches maxDepth splice depth branches).Reaches
      (depth + countBranches branches + height) := by
  match branches with
  | [] => exact reaches_pure (by dsimp only; omega)
  | branch :: rest =>
      have hbranch := reaches_meteredLinkAt hs depth branch
      have hrest := reaches_meteredLinkBranches hs hd rest
      rw [countBranches]
      refine .of_bind (hbranch.within.mono (by omega)) fun branch' hb => ?_
      refine .of_bind (hrest.within.mono (by omega)) fun others ho => ?_
      have hinBranch := hbranch.lt branch' hb
      have hothers := hrest.lt others ho
      apply reaches_pure
      dsimp only
      omega

end

end

end Selection

/-! ### All fragments and operations -/

theorem OrderedMap.perm_of_swapRemove? {α : Type} {map rest : OrderedMap α} {key : String}
    {value : α} (h : map.swapRemove? key = some (value, rest)) :
    map.entries.Perm ((key, value) :: rest.entries) := by
  unfold swapRemove? at h
  split at h
  · next found hf =>
    cases h
    exact perm_cons_swapOut hf
  · cases h

namespace Fragments

open Metered (unmetered meter)

def count (fragments : Fragments) : Nat :=
  (fragments.entries.map fun entry => entry.2.count).sum

def meteredLinkNext (declared : Fragments) (maxDepth : Nat) :
    Fragments × OrderedMap LinkedFragment → String →
      Metered (Fragments × OrderedMap LinkedFragment)
  | (waiting, linked), name => do
      let some (selection, waiting) := waiting.swapRemove? name
        | unmetered (throw (.unlinkedFragment (.scheduledTwice name)))
      let (selection, height) ← selection.meteredLinkAt maxDepth (declared.splice linked) 1
      meter height
      return (waiting, linked.insert name ⟨selection, height⟩)

def meteredLinkAll (declared : Fragments) (maxDepth : Nat) (order : List String) :
    Metered (OrderedMap LinkedFragment) := do
  let (_, linked) ← order.foldlM (declared.meteredLinkNext maxDepth) (declared, ∅)
  return linked

structure HeightsWithin (declared : Fragments)
    (state : Fragments × OrderedMap LinkedFragment) (height : Nat) : Prop where
  upTo : (declared.splice state.2).UpTo height
  rest : height + state.1.count ≤ declared.count

variable {declared : Fragments} {maxDepth : Nat}

theorem result_meteredLinkNext (declared : Fragments) (maxDepth : Nat)
    (state : Fragments × OrderedMap LinkedFragment) (name : String) :
    (declared.meteredLinkNext maxDepth state name).result =
      declared.linkNext maxDepth state name := by
  obtain ⟨waiting, linked⟩ := state
  unfold meteredLinkNext linkNext
  dsimp only
  cases waiting.swapRemove? name with
  | none => rfl
  | some taken =>
      simp only [Metered.result_bind, Metered.result_meter, pure_bind,
        Selection.result_meteredLinkAt]
      rfl

theorem result_meteredLinkAll (declared : Fragments) (maxDepth : Nat) (order : List String) :
    (declared.meteredLinkAll maxDepth order).result = declared.linkAll maxDepth order := by
  simp only [meteredLinkAll, linkAll, Metered.result_bind,
    Metered.result_foldlM (result_meteredLinkNext declared maxDepth)]
  rfl

theorem count_of_swapRemove? {waiting rest : Fragments} {name : String}
    {selection : Selection String} (h : waiting.swapRemove? name = some (selection, rest)) :
    waiting.count = selection.count + rest.count := by
  have hperm := (OrderedMap.perm_of_swapRemove? h).map fun entry => entry.2.count
  exact hperm.sum_eq

theorem upTo_splice_insert {linked : OrderedMap LinkedFragment} {fragment : LinkedFragment}
    {height bound : Nat} (h : (declared.splice linked).UpTo height) (hle : height ≤ bound)
    (hf : fragment.height ≤ bound) (name : String) :
    (declared.splice (linked.insert name fragment)).UpTo bound := by
  intro other found ho
  rw [splice_eq_ok, OrderedMap.find?_insert] at ho
  split at ho
  · cases ho
    exact hf
  · exact Nat.le_trans (h other found (splice_eq_ok.mpr ho)) hle

/-- A fragment gets as high as its own selection sets and the fragments linked before it allow, and
its selection sets wait no longer. -/
theorem HeightsWithin.meteredLinkNext {state : Fragments × OrderedMap LinkedFragment} {height : Nat}
    (h : HeightsWithin declared state height) (maxDepth : Nat) (name : String) :
    (declared.meteredLinkNext maxDepth state name).Within (declared.count + 1) ∧
      ∀ next, (declared.meteredLinkNext maxDepth state name).result = .ok next →
        ∃ height', HeightsWithin declared next height' := by
  obtain ⟨waiting, linked⟩ := state
  obtain ⟨hupTo, hrest⟩ := h
  unfold Fragments.meteredLinkNext
  dsimp only at hupTo hrest ⊢
  cases hw : waiting.swapRemove? name with
  | none => exact ⟨Metered.within_unmetered _, fun next hn => by cases hn⟩
  | some taken =>
      obtain ⟨selection, waiting'⟩ := taken
      have hcount := count_of_swapRemove? hw
      have hlink := Selection.reaches_meteredLinkAt maxDepth hupTo 1 selection
      constructor
      · refine .bind (hlink.within.mono (by omega)) fun value hv => ?_
        have hheight := hlink.lt value hv
        exact (Metered.within_meter (by omega)).bind fun _ _ => Metered.within_pure _
      · intro next hn
        simp only [Metered.result_bind, Metered.result_meter, Metered.result_pure, pure_bind,
          Outcome.bind_eq_ok, Outcome.pure_eq_ok] at hn
        obtain ⟨value, hv, rfl⟩ := hn
        have hheight := hlink.lt value hv
        refine ⟨selection.count + height, ?_, by dsimp only; omega⟩
        exact upTo_splice_insert hupTo (by omega) (by dsimp only; omega) name

theorem meteredLinkAll_spec (declared : Fragments) (maxDepth : Nat) (order : List String) :
    (declared.meteredLinkAll maxDepth order).Within (declared.count + 1) ∧
      ∀ linked, (declared.meteredLinkAll maxDepth order).result = .ok linked →
        (declared.splice linked).UpTo declared.count := by
  have hstart : ∃ height, HeightsWithin declared (declared, ∅) height := by
    refine ⟨0, fun name fragment hf => ?_, by dsimp only; omega⟩
    rw [splice_eq_ok] at hf
    cases hf
  have hloop := Metered.within_foldlM
    (fun state name (h : ∃ height, HeightsWithin declared state height) =>
      h.choose_spec.meteredLinkNext maxDepth name) order hstart
  refine ⟨hloop.1.bind fun _ _ => Metered.within_pure _, fun linked h => ?_⟩
  rw [meteredLinkAll, Metered.result_bind, Outcome.bind_eq_ok] at h
  obtain ⟨state, hstate, hlinked⟩ := h
  cases hlinked
  obtain ⟨height, hupTo, hrest⟩ := hloop.2 state hstate
  exact fun name fragment hf => Nat.le_trans (hupTo name fragment hf) (by omega)

end Fragments

namespace Resolved

/-- The number of selection sets in a document: those of its operations and of its fragments, the
ones nested in fields and the branches. -/
def count (resolved : Resolved) : Nat :=
  (resolved.operations.map (·.selection.count)).sum + resolved.fragments.count

/-- Links a document and notes all figures that the linker computes or keeps. -/
def meteredLink (resolved : Resolved) (maxDepth : Nat) :
    Metered (List (Operation LinkedSelection)) := do
  let order ← Metered.unmetered resolved.fragments.linkOrder
  let linked ← resolved.fragments.meteredLinkAll maxDepth order
  resolved.operations.mapM fun operation => do
    let splice := resolved.fragments.splice linked
    let (selection, _) ← operation.selection.meteredLinkAt maxDepth splice 1
    return { operation with selection }

theorem result_meteredLink (resolved : Resolved) (maxDepth : Nat) :
    (resolved.meteredLink maxDepth).result = resolved.link maxDepth := by
  have hoperation (splice : Splice) (operation : Operation (Selection String)) :
      (do
        let (selection, _) ← operation.selection.meteredLinkAt maxDepth splice 1
        return { operation with selection } : Metered (Operation LinkedSelection)).result = (do
          let (selection, _) ← operation.selection.linkAt maxDepth splice 1
          return { operation with selection }) := by
    rw [Metered.result_bind, Selection.result_meteredLinkAt]
    rfl
  simp only [meteredLink, link, Metered.result_bind, Metered.result_unmetered,
    Fragments.result_meteredLinkAll]
  congr 1
  funext order
  congr 1
  funext linked
  exact Metered.result_mapM (hoperation _) resolved.operations

/-- Every sum of depths and heights that the linker computes, as well as every height that it keeps,
is at most one more than the number of selection sets in the document. -/
theorem within_meteredLink (resolved : Resolved) (maxDepth : Nat) :
    (resolved.meteredLink maxDepth).Within (resolved.count + 1) := by
  have hfragments : resolved.fragments.count ≤ resolved.count := Nat.le_add_left _ _
  refine .bind (Metered.within_unmetered _) fun order _ => ?_
  obtain ⟨hall, hupTo⟩ := resolved.fragments.meteredLinkAll_spec maxDepth order
  refine (hall.mono (by omega)).bind fun linked hl => Metered.within_mapM fun operation ho => ?_
  have hcount : operation.selection.count + resolved.fragments.count ≤ resolved.count := by
    have hle := List.single_le_sum (by simp) _ (List.mem_map_of_mem (f := (·.selection.count)) ho)
    exact Nat.add_le_add_right hle _
  have hlink :=
    Selection.reaches_meteredLinkAt maxDepth (hupTo linked hl) 1 operation.selection
  exact (hlink.within.mono (by omega)).bind fun _ _ => Metered.within_pure _

end Resolved
end QueryShape
