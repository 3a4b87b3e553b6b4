import QueryShape.Proofs.DepthFigures
import QueryShape.Proofs.HeightCap
import QueryShape.Proofs.LinkedParts

/-!
# Which figures the linker notes

For each selection set the linker notes the depth below it and how deep the fragments spread in it
reach, and for each fragment its height. If it is refused, it has noted a beginning of that.
-/

namespace QueryShape

open Outcome

namespace Metered

variable {α β : Type}

theorem figures_bind (step : Metered α) (next : α → Metered β) :
    (step >>= next).figures = step.figures ++
      match step.result with
      | .ok value => (next value).figures
      | .error _ => [] := by
  obtain ⟨result, figures⟩ := step
  cases result <;> simp [bind]

theorem exists_of_bind_eq_ok {step : Metered α} {next : α → Metered β} {final : β}
    (h : (step >>= next).result = .ok final) :
    ∃ value, step.result = .ok value ∧ (next value).result = .ok final ∧
      (step >>= next).figures = step.figures ++ (next value).figures := by
  rw [result_bind, bind_eq_ok] at h
  obtain ⟨value, hv, hf⟩ := h
  exact ⟨value, hv, hf, by rw [figures_bind, hv]⟩

/-- These are the figures that a step notes: no others, and all of them if it succeeds. -/
structure Records (step : Metered α) (noted : Nat → Prop) : Prop where
  sound {figure : Nat} (h : figure ∈ step.figures) : noted figure
  complete {value : α} (hv : step.result = .ok value) {figure : Nat} (h : noted figure) :
    figure ∈ step.figures

namespace Records

theorem congr {step : Metered α} {noted noted' : Nat → Prop} (h : step.Records noted)
    (he : ∀ figure, noted figure ↔ noted' figure) : step.Records noted' where
  sound hf := (he _).mp (h.sound hf)
  complete hv _ hf := h.complete hv ((he _).mpr hf)

theorem bind {step : Metered α} {next : α → Metered β} {noted noted' : Nat → Prop}
    (h : step.Records noted)
    (hn : ∀ value, step.result = .ok value → (next value).Records noted') :
    (step >>= next).Records fun figure => noted figure ∨ noted' figure where
  sound hf := by
    rw [figures_bind, List.mem_append] at hf
    rcases hf with hf | hf
    · exact .inl (h.sound hf)
    · cases hr : step.result with
      | error error => simp [hr] at hf
      | ok value =>
          rw [hr] at hf
          exact .inr ((hn value hr).sound hf)
  complete hv figure hf := by
    obtain ⟨value, hr, hnext, hfigures⟩ := exists_of_bind_eq_ok hv
    rw [hfigures, List.mem_append]
    exact hf.imp (h.complete hr) ((hn value hr).complete hnext)

theorem unmetered (step : Typing α) : (unmetered step).Records fun _ => False where
  sound h := by cases h
  complete _ _ h := h.elim

theorem pure (value : α) : (pure value : Metered α).Records fun _ => False := .unmetered _

theorem meter (figure : Nat) : (meter figure).Records (· = figure) where
  sound h := List.mem_singleton.mp h
  complete _ _ h := List.mem_singleton.mpr h

theorem sum (a b : Nat) : (sum a b).Records (· = a + b) where
  sound h := List.mem_singleton.mp h
  complete _ _ h := List.mem_singleton.mpr h

theorem bind_sum {a b : Nat} {next : Nat → Metered β} {noted : Nat → Prop}
    (h : (next (a + b)).Records noted) :
    (Metered.sum a b >>= next).Records fun figure => figure = a + b ∨ noted figure := by
  refine (sum a b).bind fun value hv => ?_
  cases hv
  exact h

theorem mapM {f : α → Metered β} {noted : α → Nat → Prop} {inputs : List α}
    (h : ∀ input ∈ inputs, (f input).Records (noted input)) :
    (inputs.mapM f).Records fun figure => ∃ input ∈ inputs, noted input figure := by
  induction inputs with
  | nil => exact (pure _).congr fun figure => by simp
  | cons input inputs ih =>
      obtain ⟨hinput, hinputs⟩ := List.forall_mem_cons.mp h
      rw [List.mapM_cons]
      refine congr (hinput.bind fun _ _ => (ih hinputs).bind fun _ _ => pure _) fun figure => ?_
      simp

/-- What is noted in a loop is what its steps note in the states that it runs through. -/
theorem foldlM {f : β → α → Metered β} {noted : α → Nat → Prop} {motive : List α → β → Prop}
    {inputs : List α} {start : β} (hstart : motive [] start)
    (hstep : ∀ done input rest, inputs = done ++ input :: rest → ∀ state, motive done state →
      (f state input).Records (noted input) ∧
        ∀ next, (f state input).result = .ok next → motive (done ++ [input]) next) :
    (inputs.foldlM f start).Records fun figure => ∃ input ∈ inputs, noted input figure := by
  have hrest (rest done : List α) (state : β) (hsplit : inputs = done ++ rest)
      (hstate : motive done state) :
      (rest.foldlM f state).Records fun figure => ∃ input ∈ rest, noted input figure := by
    induction rest generalizing done state with
    | nil => exact (pure _).congr fun figure => by simp
    | cons input rest ih =>
        obtain ⟨hnoted, hnext⟩ := hstep done input rest hsplit state hstate
        rw [List.foldlM_cons]
        refine congr (hnoted.bind fun next hn => ih (done ++ [input]) next (by simpa using hsplit)
          (hnext next hn)) fun figure => ?_
        simp
  exact hrest inputs [] start rfl hstart

end Records

/-- The step is the other one, or is refused after it has noted a beginning of the other's
figures. -/
inductive StartsLike (step other : Metered α) : Prop where
  | same (h : step = other)
  | refused {error : TypingError} (h : step.result = .error error)
      (hp : step.figures <+: other.figures)

namespace StartsLike

theorem refl (step : Metered α) : step.StartsLike step := .same rfl

theorem figures {step other : Metered α} (h : step.StartsLike other) :
    step.figures <+: other.figures := by
  cases h with
  | same h => exact ⟨[], by rw [h, List.append_nil]⟩
  | refused _ hp => exact hp

theorem bind {step other : Metered α} {next next' : α → Metered β} (h : step.StartsLike other)
    (hn : ∀ value, (next value).StartsLike (next' value)) :
    (step >>= next).StartsLike (other >>= next') := by
  cases h with
  | same h =>
      subst h
      cases hr : step.result with
      | error error =>
          have hrefused : (step >>= next).result = .error error := by simp [hr]
          exact .refused hrefused ⟨[], by rw [List.append_nil, figures_bind, figures_bind, hr]⟩
      | ok value =>
          cases hn value with
          | same h =>
              apply StartsLike.same
              obtain ⟨result, figures⟩ := step
              cases hr
              simp [Bind.bind, h]
          | refused h hp =>
              refine .refused (by rw [result_bind, hr]; exact h) ?_
              rw [figures_bind, figures_bind, hr]
              exact (List.prefix_append_right_inj _).mpr hp
  | refused h hp =>
      refine .refused (by rw [result_bind, h]; rfl) ?_
      rw [figures_bind, figures_bind, h, List.append_nil]
      exact hp.trans (List.prefix_append _ _)

theorem mapM {f g : α → Metered β} (h : ∀ input, (f input).StartsLike (g input))
    (inputs : List α) : (inputs.mapM f).StartsLike (inputs.mapM g) := by
  induction inputs with
  | nil => exact .refl _
  | cons input inputs ih =>
      rw [List.mapM_cons, List.mapM_cons]
      exact (h input).bind fun _ => ih.bind fun _ => .refl _

theorem foldlM {f g : β → α → Metered β} (h : ∀ state input, (f state input).StartsLike
    (g state input)) (inputs : List α) (start : β) :
    (inputs.foldlM f start).StartsLike (inputs.foldlM g start) := by
  induction inputs generalizing start with
  | nil => exact .refl _
  | cons input inputs ih =>
      rw [List.foldlM_cons, List.foldlM_cons]
      exact (h start input).bind ih

theorem checkDepth {maxDepth cap : Nat} (h : maxDepth ≤ cap) (depth : Nat) :
    (unmetered (checkDepth maxDepth depth)).StartsLike (unmetered (checkDepth cap depth)) := by
  by_cases hd : depth > maxDepth
  · exact .refused (checkDepth_eq_error.mpr ⟨hd, rfl⟩) List.nil_prefix
  · have hc : ¬ depth > cap := by omega
    apply StartsLike.same
    rw [QueryShape.checkDepth, QueryShape.checkDepth, if_neg hd, if_neg hc]

end StartsLike
end Metered

/-! ### Under a higher cap -/

section Caps

open Metered (StartsLike)

variable {maxDepth cap : Nat}

namespace Selection

variable {splice : Splice}

theorem startsLike_meteredSpliceAll (hcap : maxDepth ≤ cap) (depth : Nat) (names : List String) :
    (meteredSpliceAll maxDepth splice depth names).StartsLike
      (meteredSpliceAll cap splice depth names) := by
  induction names with
  | nil => exact .refl _
  | cons name rest ih =>
      exact (StartsLike.refl _).bind fun _ => (StartsLike.refl _).bind fun reached =>
        (StartsLike.checkDepth hcap reached).bind fun _ => ih.bind fun _ => .refl _

mutual

theorem startsLike_meteredLinkAt (hcap : maxDepth ≤ cap) (depth : Nat)
    (selection : Selection String) :
    (selection.meteredLinkAt maxDepth splice depth).StartsLike
      (selection.meteredLinkAt cap splice depth) := by
  match selection with
  | ⟨on, possible, fields, branches, spreads⟩ =>
      rw [meteredLinkAt, meteredLinkAt]
      exact (StartsLike.checkDepth hcap depth).bind fun _ => (StartsLike.refl _).bind fun below =>
        (startsLike_meteredLinkFields hcap below fields).bind fun _ =>
          (startsLike_meteredLinkBranches hcap below branches).bind fun _ =>
            (startsLike_meteredSpliceAll hcap depth spreads).bind fun _ => .refl _

theorem startsLike_meteredLinkFields (hcap : maxDepth ≤ cap) (depth : Nat)
    (fields : List (Field (Selection String))) :
    (meteredLinkFields maxDepth splice depth fields).StartsLike
      (meteredLinkFields cap splice depth fields) := by
  match fields with
  | [] => exact .refl _
  | ⟨key, wrapping, core⟩ :: rest =>
      rw [meteredLinkFields, meteredLinkFields]
      exact (startsLike_meteredLinkCore hcap depth core).bind fun _ =>
        (startsLike_meteredLinkFields hcap depth rest).bind fun _ => .refl _

theorem startsLike_meteredLinkCore (hcap : maxDepth ≤ cap) (depth : Nat)
    (core : OutputCore (Selection String)) :
    (meteredLinkCore maxDepth splice depth core).StartsLike
      (meteredLinkCore cap splice depth core) := by
  match core with
  | .scalar _ | .enum _ | .typename => exact .refl _
  | .selection nested =>
      rw [meteredLinkCore, meteredLinkCore]
      exact (startsLike_meteredLinkAt hcap depth nested).bind fun _ => .refl _

theorem startsLike_meteredLinkBranches (hcap : maxDepth ≤ cap) (depth : Nat)
    (branches : List (Selection String)) :
    (meteredLinkBranches maxDepth splice depth branches).StartsLike
      (meteredLinkBranches cap splice depth branches) := by
  match branches with
  | [] => exact .refl _
  | branch :: rest =>
      rw [meteredLinkBranches, meteredLinkBranches]
      exact (startsLike_meteredLinkAt hcap depth branch).bind fun _ =>
        (startsLike_meteredLinkBranches hcap depth rest).bind fun _ => .refl _

end

end Selection

theorem Fragments.startsLike_meteredLinkNext (hcap : maxDepth ≤ cap) (declared : Fragments)
    (state : Fragments × OrderedMap LinkedFragment) (name : String) :
    (declared.meteredLinkNext maxDepth state name).StartsLike
      (declared.meteredLinkNext cap state name) := by
  obtain ⟨waiting, linked⟩ := state
  unfold meteredLinkNext
  dsimp only
  cases waiting.swapRemove? name with
  | none => exact .refl _
  | some taken =>
      exact (Selection.startsLike_meteredLinkAt hcap 1 taken.1).bind fun _ => .refl _

/-- Whatever is noted before a refusal is noted under a higher cap too, and first. -/
theorem Resolved.startsLike_meteredLink (hcap : maxDepth ≤ cap) (resolved : Resolved) :
    (resolved.meteredLink maxDepth).StartsLike (resolved.meteredLink cap) := by
  refine (StartsLike.refl _).bind fun order => ?_
  have hall : (resolved.fragments.meteredLinkAll maxDepth order).StartsLike
      (resolved.fragments.meteredLinkAll cap order) :=
    (StartsLike.foldlM (Fragments.startsLike_meteredLinkNext hcap resolved.fragments) order _).bind
      fun _ => .refl _
  refine hall.bind fun linked => StartsLike.mapM (fun operation => ?_) resolved.operations
  exact (Selection.startsLike_meteredLinkAt hcap 1 operation.selection).bind fun _ => .refl _

end Caps

/-! ### What is noted -/

/-- The selection set lies at `depth` inside a selection that lies at `start` itself. -/
inductive Selection.Inside {ρ : Type} (start : Nat) (root : Selection ρ) :
    Nat → Selection ρ → Prop where
  | root : Inside start root start root
  | child {depth : Nat} {set child : Selection ρ} (h : Inside start root depth set)
      (hc : child ∈ set.children) : Inside start root (depth + 1) child

/-- A figure for some selection set inside `root`, of the depth below it or of a spread in it, where
fragments are as high as `IsHigh` says. -/
inductive Selection.Notes (IsHigh : String → Nat → Prop) (start : Nat) (root : Selection String) :
    Nat → Prop where
  | below {depth : Nat} {set : Selection String} (h : root.Inside start depth set) :
      Notes IsHigh start root (depth + 1)
  | spread {depth height : Nat} {set : Selection String} {name : String}
      (h : root.Inside start depth set) (hn : name ∈ set.spreads) (hh : IsHigh name height) :
      Notes IsHigh start root (depth + height)

namespace Selection

variable {ρ : Type} {IsHigh : String → Nat → Prop} {start depth figure : Nat}

theorem Inside.of_child {root child set : Selection ρ} (hc : child ∈ root.children)
    (h : child.Inside (start + 1) depth set) : root.Inside start depth set := by
  induction h with
  | root => exact .child .root hc
  | child _ hc ih => exact .child ih hc

theorem inside_iff {root set : Selection ρ} : root.Inside start depth set ↔
    (depth = start ∧ set = root) ∨
      ∃ child ∈ root.children, child.Inside (start + 1) depth set := by
  constructor
  · intro h
    induction h with
    | root => exact .inl ⟨rfl, rfl⟩
    | child _ hc ih =>
        right
        rcases ih with ⟨rfl, rfl⟩ | ⟨child, hchild, h⟩
        · exact ⟨_, hc, .root⟩
        · exact ⟨child, hchild, .child h hc⟩
  · rintro (⟨rfl, rfl⟩ | ⟨child, hc, h⟩)
    · exact .root
    · exact h.of_child hc

theorem notes_iff {root : Selection String} : root.Notes IsHigh start figure ↔
    figure = start + 1 ∨
      (∃ child ∈ root.children, child.Notes IsHigh (start + 1) figure) ∨
      ∃ name ∈ root.spreads, ∃ height, IsHigh name height ∧ figure = start + height := by
  constructor
  · intro h
    cases h with
    | below h =>
        rcases inside_iff.mp h with ⟨rfl, -⟩ | ⟨child, hc, h⟩
        · exact .inl rfl
        · exact .inr (.inl ⟨child, hc, .below h⟩)
    | spread h hn hh =>
        rcases inside_iff.mp h with ⟨rfl, rfl⟩ | ⟨child, hc, h⟩
        · exact .inr (.inr ⟨_, hn, _, hh, rfl⟩)
        · exact .inr (.inl ⟨child, hc, .spread h hn hh⟩)
  · rintro (rfl | ⟨child, hc, h⟩ | ⟨name, hn, height, hh, rfl⟩)
    · exact .below .root
    · cases h with
      | below h => exact .below (h.of_child hc)
      | spread h hn hh => exact .spread (h.of_child hc) hn hh
    · exact .spread .root hn hh

end Selection

def Splice.IsHigh (splice : Splice) (name : String) (height : Nat) : Prop :=
  ∃ fragment, splice name = .ok fragment ∧ fragment.height = height

namespace Selection

open Metered (Records)

variable {maxDepth : Nat} {splice : Splice}

theorem records_meteredSpliceAll (depth : Nat) (names : List String) :
    (meteredSpliceAll maxDepth splice depth names).Records fun figure =>
      ∃ name ∈ names, ∃ height, splice.IsHigh name height ∧ figure = depth + height := by
  induction names with
  | nil => exact (Records.pure _).congr fun figure => by simp
  | cons name rest ih =>
      have hfirst (fragment : LinkedFragment) (hf : splice name = .ok fragment) (figure : Nat) :
          figure = depth + fragment.height ↔
            ∃ height, splice.IsHigh name height ∧ figure = depth + height := by
        simp [Splice.IsHigh, hf]
      refine Records.congr (.bind (Records.unmetered (splice name)) fun fragment hf =>
        .bind ((Records.sum depth fragment.height).congr (hfirst fragment hf)) fun reached _ =>
          .bind (Records.unmetered (checkDepth maxDepth reached)) fun _ _ =>
            ih.bind fun others _ => Records.pure _) fun figure => ?_
      simp

mutual

theorem records_meteredLinkAt (depth : Nat) (selection : Selection String) :
    (selection.meteredLinkAt maxDepth splice depth).Records
      (selection.Notes splice.IsHigh depth) := by
  match selection with
  | ⟨on, possible, fields, branches, spreads⟩ =>
      rw [meteredLinkAt]
      refine Records.congr (.bind (Records.unmetered (checkDepth maxDepth depth)) fun _ _ =>
        .bind_sum <| (records_meteredLinkFields (depth + 1) fields).bind fun _ _ =>
          (records_meteredLinkBranches (depth + 1) branches).bind fun _ _ =>
            (records_meteredSpliceAll depth spreads).bind fun _ _ => Records.pure _)
        fun figure => ?_
      rw [notes_iff]
      simp only [children, List.mem_append, or_and_right, exists_or, false_or, or_false, or_assoc]

theorem records_meteredLinkFields (depth : Nat) (fields : List (Field (Selection String))) :
    (meteredLinkFields maxDepth splice depth fields).Records fun figure =>
      ∃ child ∈ fields.filterMap Field.nested?, child.Notes splice.IsHigh depth figure := by
  match fields with
  | [] => exact (Records.pure _).congr fun figure => by simp
  | ⟨key, wrapping, core⟩ :: rest =>
      rw [meteredLinkFields]
      refine Records.congr (.bind (records_meteredLinkCore depth key wrapping core) fun _ _ =>
        (records_meteredLinkFields depth rest).bind fun _ _ => Records.pure _) fun figure => ?_
      rw [List.filterMap_cons]
      cases Field.nested? ⟨key, wrapping, core⟩ <;> simp

theorem records_meteredLinkCore (depth : Nat) (key : String) (wrapping : List Wrapper)
    (core : OutputCore (Selection String)) :
    (meteredLinkCore maxDepth splice depth core).Records fun figure =>
      ∃ child ∈ Field.nested? ⟨key, wrapping, core⟩,
        child.Notes splice.IsHigh depth figure := by
  match core with
  | .scalar _ | .enum _ | .typename =>
      exact (Records.pure _).congr fun figure => by simp [Field.nested?]
  | .selection nested =>
      rw [meteredLinkCore]
      refine Records.congr ((records_meteredLinkAt depth nested).bind fun _ _ => Records.pure _)
        fun figure => ?_
      simp [Field.nested?]

theorem records_meteredLinkBranches (depth : Nat) (branches : List (Selection String)) :
    (meteredLinkBranches maxDepth splice depth branches).Records fun figure =>
      ∃ child ∈ branches, child.Notes splice.IsHigh depth figure := by
  match branches with
  | [] => exact (Records.pure _).congr fun figure => by simp
  | branch :: rest =>
      rw [meteredLinkBranches]
      refine Records.congr ((records_meteredLinkAt depth branch).bind fun _ _ =>
        (records_meteredLinkBranches depth rest).bind fun _ _ => Records.pure _) fun figure => ?_
      simp

end

theorem references_of_mem_children {root child : Selection ρ} (hc : child ∈ root.children)
    {name : ρ} (h : name ∈ child.references) : name ∈ root.references := by
  rw [references_eq]
  rcases mem_children_iff.mp hc with ⟨field, hf, hn⟩ | hb
  · apply List.mem_append_left
    exact List.mem_flatMap.mpr ⟨field, hf, by simpa [hn] using h⟩
  · apply List.mem_append_right
    exact List.mem_append_left _ (List.mem_flatMap.mpr ⟨child, hb, h⟩)

theorem Inside.mem_references {root set : Selection ρ} (h : root.Inside start depth set) {name : ρ}
    (hn : name ∈ set.references) : name ∈ root.references := by
  induction h with
  | root => exact hn
  | child _ hc ih => exact ih (references_of_mem_children hc hn)

theorem mem_references_of_mem_spreads {set : Selection ρ} {name : ρ} (h : name ∈ set.spreads) :
    name ∈ set.references := by
  rw [references_eq]
  exact List.mem_append_right _ (List.mem_append_right _ h)

theorem Notes.imp {IsHigh IsHigh' : String → Nat → Prop} {root : Selection String} {figure : Nat}
    (h : root.Notes IsHigh start figure)
    (hi : ∀ name ∈ root.references, ∀ height, IsHigh name height → IsHigh' name height) :
    root.Notes IsHigh' start figure := by
  cases h with
  | below h => exact .below h
  | spread h hn hh =>
      exact .spread h hn (hi _ (h.mem_references (mem_references_of_mem_spreads hn)) _ hh)

end Selection

/-! ### All fragments and operations -/

def Fragments.IsHigh (declared : Fragments) (name : String) (height : Nat) : Prop :=
  ∃ raw tree, declared.find? name = some raw ∧ declared.Expands raw tree ∧ tree.height = height

namespace Fragments

open Metered (Records)

variable {declared : Fragments} {maxDepth : Nat}

theorem IsHigh.unique {name : String} {height height' : Nat} (h : declared.IsHigh name height)
    (h' : declared.IsHigh name height') : height = height' := by
  obtain ⟨raw, tree, hraw, htree, rfl⟩ := h
  obtain ⟨raw', tree', hraw', htree', rfl⟩ := h'
  cases hraw.symm.trans hraw'
  rw [htree.unique htree']

/-- What is spliced is as high as the expansion of what is declared. -/
theorem Progress.isHigh {done : List String} {waiting : Fragments}
    {linked : OrderedMap LinkedFragment} (hp : Progress declared done waiting linked)
    (hn : NotedWithin maxDepth linked) {name : String} {height : Nat}
    (h : (declared.splice linked).IsHigh name height) : declared.IsHigh name height := by
  obtain ⟨fragment, hf, rfl⟩ := h
  rw [splice_eq_ok] at hf
  obtain ⟨raw, hraw, hexpand⟩ := hp.expands name fragment hf
  exact ⟨raw, fragment.selection, hraw, expands_of_expand _ hexpand, (hn name fragment hf).1.symm⟩

theorem Progress.isHigh_iff {done : List String} {waiting : Fragments}
    {linked : OrderedMap LinkedFragment} (hp : Progress declared done waiting linked)
    (hn : NotedWithin maxDepth linked) {name : String} (hd : name ∈ done) (height : Nat) :
    (declared.splice linked).IsHigh name height ↔ declared.IsHigh name height := by
  refine ⟨hp.isHigh hn, fun h => ?_⟩
  obtain ⟨fragment, hf⟩ := hp.links name hd
  have hspliced : (declared.splice linked).IsHigh name fragment.height :=
    ⟨fragment, splice_eq_ok.mpr hf, rfl⟩
  rwa [h.unique (hp.isHigh hn hspliced)]

theorem Progress.notes_iff {done : List String} {waiting : Fragments}
    {linked : OrderedMap LinkedFragment} (hp : Progress declared done waiting linked)
    (hn : NotedWithin maxDepth linked) {root : Selection String}
    (hd : ∀ name ∈ root.references, name ∈ declared.keys → name ∈ done) (start figure : Nat) :
    root.Notes (declared.splice linked).IsHigh start figure ↔
      root.Notes declared.IsHigh start figure := by
  constructor
  · exact fun h => h.imp fun _ _ _ => hp.isHigh hn
  · refine fun h => h.imp fun name hr height hh => (hp.isHigh_iff hn (hd name hr ?_) height).mpr hh
    obtain ⟨raw, _, hraw, -⟩ := hh
    exact OrderedMap.mem_keys_of_find? hraw

inductive Notes (declared : Fragments) (name : String) : Nat → Prop where
  | inside {raw : Selection String} {figure : Nat} (hraw : declared.find? name = some raw)
      (h : raw.Notes declared.IsHigh 1 figure) : Notes declared name figure
  | kept {height : Nat} (h : declared.IsHigh name height) : Notes declared name height

theorem notes_iff {name : String} {raw : Selection String} (hraw : declared.find? name = some raw)
    {tree : LinkedSelection} (htree : declared.Expands raw tree) (figure : Nat) :
    declared.Notes name figure ↔
      raw.Notes declared.IsHigh 1 figure ∨ figure = tree.height := by
  have hhigh : declared.IsHigh name tree.height := ⟨raw, tree, hraw, htree, rfl⟩
  constructor
  · rintro (⟨hraw', h⟩ | h)
    · cases hraw.symm.trans hraw'
      exact .inl h
    · exact .inr (h.unique hhigh)
  · rintro (h | rfl)
    · exact .inside hraw h
    · exact .kept hhigh

theorem records_meteredLinkNext {order done rest : List String} {waiting : Fragments}
    {linked : OrderedMap LinkedFragment} {name : String} (ho : declared.linkOrder = .ok order)
    (hsplit : order = done ++ name :: rest) (hp : Progress declared done waiting linked)
    (hn : NotedWithin maxDepth linked) :
    (declared.meteredLinkNext maxDepth (waiting, linked) name).Records (declared.Notes name) := by
  obtain ⟨raw, waiting', hraw, hw, hrefs⟩ := hp.exists_swapRemove? ho hsplit
  obtain ⟨tree, htree, hlink⟩ := hp.exists_linkAt_eq maxDepth hn.measured hrefs
  have hinside : (raw.meteredLinkAt maxDepth (declared.splice linked) 1).Records
      (raw.Notes declared.IsHigh 1) :=
    (Selection.records_meteredLinkAt 1 raw).congr
      (hp.notes_iff hn (fun reference hr _ => hrefs reference hr) 1)
  unfold meteredLinkNext
  simp only [hw]
  have hnotes (figure : Nat) : raw.Notes declared.IsHigh 1 figure ∨ figure = tree.height ∨ False ↔
      declared.Notes name figure := by
    rw [notes_iff hraw htree, or_false]
  refine Records.congr (hinside.bind fun value hv => ?_) hnotes
  rw [Selection.result_meteredLinkAt, hlink] at hv
  simp only [bind_eq_ok, pure_eq_ok] at hv
  obtain ⟨_, -, rfl⟩ := hv
  exact (Records.meter _).bind fun _ _ => Records.pure _

theorem records_meteredLinkAll {order : List String} (ho : declared.linkOrder = .ok order) :
    (declared.meteredLinkAll maxDepth order).Records fun figure =>
      ∃ name, declared.Notes name figure := by
  have hloop : (order.foldlM (declared.meteredLinkNext maxDepth) (declared, ∅)).Records
      fun figure => ∃ name ∈ order, declared.Notes name figure :=
    Records.foldlM (motive := fun done state =>
      Progress declared done state.1 state.2 ∧ NotedWithin maxDepth state.2)
      ⟨.start declared, fun _ _ hf => by cases hf⟩ ?_
  · refine Records.congr (hloop.bind fun _ _ => Records.pure _) fun figure => ?_
    rw [or_false]
    refine ⟨fun ⟨name, _, h⟩ => ⟨name, h⟩, fun ⟨name, h⟩ => ⟨name, ?_, h⟩⟩
    rw [(LinkOrder.sorted_spec ho).1.mem_iff]
    rcases h with ⟨hraw, _⟩ | ⟨_, _, hraw, _⟩ <;> exact OrderedMap.mem_keys_of_find? hraw
  · rintro done name rest hsplit ⟨waiting, linked⟩ ⟨hp, hn⟩
    refine ⟨records_meteredLinkNext ho hsplit hp hn, fun next h => ?_⟩
    rw [result_meteredLinkNext] at h
    exact ⟨hp.linkNext_ok h, hp.notedWithin_linkNext hn ho hsplit h⟩

end Fragments

namespace Resolved

open Metered (Records)

/-- A figure that the linker computes for a selection set of the document, or keeps for a fragment:
`depth + 1` for a set that lies at that depth in an operation or a fragment, `depth + height` for a
fragment of that height spread there, and the height of each fragment. -/
inductive Computes (resolved : Resolved) : Nat → Prop where
  | inside {selection : Selection String} {figure : Nat} (hs : selection ∈ resolved.selections)
      (h : selection.Notes resolved.fragments.IsHigh 1 figure) : Computes resolved figure
  | kept {name : String} {height : Nat} (h : resolved.fragments.IsHigh name height) :
      Computes resolved height

variable {resolved : Resolved} {maxDepth : Nat}

theorem computes_iff (figure : Nat) :
    resolved.Computes figure ↔ (∃ name, resolved.fragments.Notes name figure) ∨
      ∃ operation ∈ resolved.operations,
        operation.selection.Notes resolved.fragments.IsHigh 1 figure := by
  constructor
  · rintro (⟨hs, h⟩ | h)
    · rcases List.mem_append.mp hs with hs | hs
      · obtain ⟨operation, ho, rfl⟩ := List.mem_map.mp hs
        exact .inr ⟨operation, ho, h⟩
      · obtain ⟨⟨name, raw⟩, he, rfl⟩ := List.mem_map.mp hs
        exact .inl ⟨name, .inside (OrderedMap.find?_eq_some_iff.mpr he) h⟩
    · exact .inl ⟨_, .kept h⟩
  · rintro (⟨name, hraw, h⟩ | ⟨operation, ho, h⟩)
    · exact .inside (mem_selections_of_find? hraw) h
    · exact .kept ‹_›
    · exact .inside (List.mem_append_left _ (List.mem_map_of_mem ho)) h

theorem records_meteredLink : (resolved.meteredLink maxDepth).Records resolved.Computes := by
  have hnotes (figure : Nat) : False ∨ (∃ name, resolved.fragments.Notes name figure) ∨
      (∃ operation ∈ resolved.operations,
        operation.selection.Notes resolved.fragments.IsHigh 1 figure) ↔
      resolved.Computes figure := by
    rw [computes_iff, false_or]
  refine Records.congr (.bind (Records.unmetered _) fun order ho =>
    (Fragments.records_meteredLinkAll ho).bind fun linked hl =>
      Records.mapM fun operation _ => ?_) hnotes
  obtain ⟨⟨waiting, hp⟩, hn⟩ := (Fragments.linkAll_heights ho).1 linked
    ((Fragments.result_meteredLinkAll _ _ _).symm.trans hl)
  have hall (name : String) (_ : name ∈ operation.selection.references)
      (hk : name ∈ resolved.fragments.keys) : name ∈ order :=
    (LinkOrder.sorted_spec ho).1.mem_iff.mpr hk
  refine Records.congr (.bind (Selection.records_meteredLinkAt 1 operation.selection) fun _ _ =>
    Records.pure _) fun figure => ?_
  rw [or_false, hp.notes_iff hn hall]

/-- Linking with notes is linking. Every figure noted is one that the linker computes for a
selection set or keeps for a fragment, and is at most one more than the number of selection sets in
the document, whatever the cap on depths is. A document that is linked has all of these figures
noted, one that is refused those that come first, as they come under any higher cap. -/
theorem link_figures_le (resolved : Resolved) (maxDepth : Nat) :
    (resolved.meteredLink maxDepth).result = resolved.link maxDepth ∧
      (∀ figure ∈ (resolved.meteredLink maxDepth).figures,
        resolved.Computes figure ∧ figure ≤ resolved.count + 1) ∧
      (∀ linked, resolved.link maxDepth = .ok linked → ∀ figure, resolved.Computes figure →
        figure ∈ (resolved.meteredLink maxDepth).figures) ∧
      ∀ cap, maxDepth ≤ cap →
        (resolved.meteredLink maxDepth).figures <+: (resolved.meteredLink cap).figures := by
  refine ⟨result_meteredLink resolved maxDepth, fun figure hf => ?_, fun linked h figure hf => ?_,
    fun cap hcap => (startsLike_meteredLink hcap resolved).figures⟩
  · exact ⟨records_meteredLink.sound hf, within_meteredLink resolved maxDepth figure hf⟩
  · rw [← result_meteredLink] at h
    exact records_meteredLink.complete h hf

/-- `Name` notes 2 and is kept with 1, `Friends` notes 2, 3 and 2 + 1 for the `Name` in its list and
is kept with 3, and the query notes 2, 3 and the two spreads at depth 2. Under a cap of 4 it is
refused at 2 + 3. -/
theorem link_figures_le_friendsDocument :
    friendsDocument.count = 5 ∧
      (friendsDocument.meteredLink 5).figures = [2, 1, 2, 3, 3, 3, 2, 3, 5, 3] ∧
      (friendsDocument.meteredLink 4).figures = [2, 1, 2, 3, 3, 3, 2, 3, 5] ∧
      (friendsDocument.meteredLink 4).figures <+: (friendsDocument.meteredLink 5).figures ∧
      ∀ figure, friendsDocument.Computes figure ↔ figure ∈ [1, 2, 3, 5] := by
  have h : friendsDocument.link 5 = .ok friendsLinked := by cbv
  have hfive : (friendsDocument.meteredLink 5).figures = [2, 1, 2, 3, 3, 3, 2, 3, 5, 3] := by cbv
  have hsound := (link_figures_le friendsDocument 5).2.1
  have hcomplete := (link_figures_le friendsDocument 5).2.2.1 friendsLinked h
  have hprefix := (link_figures_le friendsDocument 4).2.2.2 5 (by decide)
  rw [hfive] at hsound hcomplete
  have hwithin : ([2, 1, 2, 3, 3, 3, 2, 3, 5, 3] : List Nat) ⊆ [1, 2, 3, 5] := by decide
  have hall : ([1, 2, 3, 5] : List Nat) ⊆ [2, 1, 2, 3, 3, 3, 2, 3, 5, 3] := by decide
  exact ⟨by cbv, hfive, by cbv, hprefix, fun figure =>
    ⟨fun hf => hwithin (hcomplete figure hf), fun hf => (hsound figure (hall hf)).1⟩⟩

end Resolved
end QueryShape
