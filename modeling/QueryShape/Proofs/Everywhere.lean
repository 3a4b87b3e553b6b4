import QueryShape.Flattened
import QueryShape.Proofs.Substitution

/-!
# Conditions on every part of a selection

Expanding spreads and flattening move fields about, but a field stays under the type from which it
is selected. So a condition on types and fields at all depths stays true.
-/

namespace QueryShape.Selection

open Outcome

variable {ρ : Type} {p : String → List String → Prop} {q : String → Field String → Prop}

/-- A selection itself is in `r`, or the selection of one of its fields or one of its branches is,
at any depth. -/
inductive Somewhere (r : Selection ρ → Prop) : Selection ρ → Prop where
  | here {selection : Selection ρ} (h : r selection) : Somewhere r selection
  | inField {selection nested : Selection ρ} {field : Field (Selection ρ)}
      (hf : field ∈ selection.fields) (hn : field.nested? = some nested)
      (h : Somewhere r nested) : Somewhere r selection
  | inBranch {selection branch : Selection ρ} (hb : branch ∈ selection.branches)
      (h : Somewhere r branch) : Somewhere r selection

theorem somewhere_iff {r : Selection ρ → Prop} {selection : Selection ρ} :
    selection.Somewhere r ↔ r selection ∨
      (∃ field ∈ selection.fields, ∃ nested, field.nested? = some nested ∧ nested.Somewhere r) ∨
      ∃ branch ∈ selection.branches, branch.Somewhere r := by
  constructor
  · intro h
    cases h with
    | here h => exact .inl h
    | inField hf hn h => exact .inr (.inl ⟨_, hf, _, hn, h⟩)
    | inBranch hb h => exact .inr (.inr ⟨_, hb, h⟩)
  · rintro (h | ⟨field, hf, nested, hn, h⟩ | ⟨branch, hb, h⟩)
    · exact .here h
    · exact .inField hf hn h
    · exact .inBranch hb h

/-- Every selection set has a type and possible types in `p`, and fields that are in `q` for its
type, where a field's own selection is known by its type only. -/
inductive Everywhere (p : String → List String → Prop) (q : String → Field String → Prop) :
    Selection ρ → Prop where
  | intro {selection : Selection ρ} (here : p selection.on selection.possible)
      (fields : ∀ field ∈ selection.fields, q selection.on (field.mapNested Selection.on))
      (nested : ∀ field ∈ selection.fields, ∀ inner, field.nested? = some inner →
        Everywhere p q inner)
      (branches : ∀ branch ∈ selection.branches, Everywhere p q branch) :
      Everywhere p q selection

def FieldEverywhere (p : String → List String → Prop) (q : String → Field String → Prop)
    (on : String) (field : Field (Selection ρ)) : Prop :=
  q on (field.mapNested Selection.on) ∧ ∀ inner, field.nested? = some inner → Everywhere p q inner

theorem everywhere_iff {selection : Selection ρ} :
    selection.Everywhere p q ↔ p selection.on selection.possible ∧
      (∀ field ∈ selection.fields, FieldEverywhere p q selection.on field) ∧
      ∀ branch ∈ selection.branches, branch.Everywhere p q := by
  constructor
  · rintro ⟨here, fields, nested, branches⟩
    exact ⟨here, fun field hf => ⟨fields field hf, nested field hf⟩, branches⟩
  · rintro ⟨here, fields, branches⟩
    exact ⟨here, fun field hf => (fields field hf).1, fun field hf => (fields field hf).2, branches⟩

/-! ### Expanding -/

section

variable {meaning : String → Option LinkedSelection}

mutual

/-- A condition that holds of a selection and of all that its spreads stand for holds of the
selection with the spreads replaced. -/
theorem everywhere_substitute
    (hm : ∀ name linked, meaning name = some linked → linked.Everywhere p q)
    {selection : Selection String} {linked : LinkedSelection}
    (h : selection.substitute meaning = some linked) (hs : selection.Everywhere p q) :
    linked.Everywhere p q ∧ linked.on = selection.on ∧ linked.possible = selection.possible := by
  match selection with
  | ⟨on, possible, fields, branches, spreads⟩ =>
      simp only [substitute, Option.bind_eq_bind, Option.bind_eq_some_iff] at h
      obtain ⟨fields', hf, branches', hb, spliced, hsp, hl⟩ := h
      cases hl
      obtain ⟨here, hfields, hbranches⟩ := everywhere_iff.mp hs
      refine ⟨everywhere_iff.mpr ⟨here, fieldEverywhere_substitute hm hf hfields, ?_⟩, rfl, rfl⟩
      intro branch hmem
      rcases List.mem_append.mp hmem with hmem | hmem
      · exact branches_everywhere_substitute hm hb hbranches branch hmem
      · obtain ⟨name, _, hn⟩ := exists_of_mem_forall₂ (mapM_meaning_eq_some_iff.mp hsp) hmem
        exact hm name branch hn

theorem fieldEverywhere_substitute
    (hm : ∀ name linked, meaning name = some linked → linked.Everywhere p q) {on : String}
    {fields : List (Field (Selection String))} {linked : List (Field LinkedSelection)}
    (h : substituteFields meaning fields = some linked)
    (hs : ∀ field ∈ fields, FieldEverywhere p q on field) :
    ∀ field ∈ linked, FieldEverywhere p q on field := by
  match fields with
  | [] =>
      cases h
      simp
  | ⟨key, wrapping, core⟩ :: rest =>
      simp only [substituteFields, Option.bind_eq_bind, Option.bind_eq_some_iff] at h
      obtain ⟨core', hc, others, ho, hl⟩ := h
      cases hl
      obtain ⟨hfirst, hrest⟩ := List.forall_mem_cons.mp hs
      exact List.forall_mem_cons.mpr
        ⟨core_everywhere_substitute hm hc hfirst, fieldEverywhere_substitute hm ho hrest⟩

theorem core_everywhere_substitute
    (hm : ∀ name linked, meaning name = some linked → linked.Everywhere p q) {on key : String}
    {wrapping : List Wrapper} {core : OutputCore (Selection String)}
    {linked : OutputCore LinkedSelection} (h : substituteCore meaning core = some linked)
    (hs : FieldEverywhere p q on ⟨key, wrapping, core⟩) :
    FieldEverywhere p q on ⟨key, wrapping, linked⟩ := by
  match core with
  | .scalar _ =>
      cases h
      exact ⟨hs.1, fun _ hn => by cases hn⟩
  | .enum _ =>
      cases h
      exact ⟨hs.1, fun _ hn => by cases hn⟩
  | .typename =>
      cases h
      exact ⟨hs.1, fun _ hn => by cases hn⟩
  | .selection nested =>
      simp only [substituteCore, Option.bind_eq_bind, Option.bind_eq_some_iff] at h
      obtain ⟨nested', hn, hl⟩ := h
      cases hl
      obtain ⟨hinner, hon, _⟩ := everywhere_substitute hm hn (hs.2 nested rfl)
      have hhere := hs.1
      simp only [Field.mapNested] at hhere
      refine ⟨?_, ?_⟩
      · simp only [Field.mapNested]
        rwa [hon]
      · rintro inner hi
        cases hi
        exact hinner

theorem branches_everywhere_substitute
    (hm : ∀ name linked, meaning name = some linked → linked.Everywhere p q)
    {branches : List (Selection String)} {linked : List LinkedSelection}
    (h : substituteBranches meaning branches = some linked)
    (hs : ∀ branch ∈ branches, branch.Everywhere p q) :
    ∀ branch ∈ linked, branch.Everywhere p q := by
  match branches with
  | [] =>
      cases h
      simp
  | branch :: rest =>
      simp only [substituteBranches, Option.bind_eq_bind, Option.bind_eq_some_iff] at h
      obtain ⟨branch', hb, others, ho, hl⟩ := h
      cases hl
      obtain ⟨hfirst, hrest⟩ := List.forall_mem_cons.mp hs
      exact List.forall_mem_cons.mpr ⟨(everywhere_substitute hm hb hfirst).1,
        branches_everywhere_substitute hm ho hrest⟩

end

theorem everywhere_expand {fragments : Fragments}
    (hf : ∀ name selection, fragments.find? name = some selection → selection.Everywhere p q)
    {levels : Nat} {selection : Selection String} {linked : LinkedSelection}
    (h : fragments.expand levels selection = some linked) (hs : selection.Everywhere p q) :
    linked.Everywhere p q := by
  induction levels generalizing selection linked with
  | zero => exact (everywhere_substitute (by simp) h hs).1
  | succ levels ih =>
      refine (everywhere_substitute (fun name inner hm => ?_) h hs).1
      obtain ⟨fragment, hn, hm⟩ := Option.bind_eq_some_iff.mp hm
      exact ih hm (hf name fragment hn)

end

/-! ### Flattening -/

theorem everywhere_absorb {selection other : LinkedSelection} (hon : selection.on = other.on)
    (hs : selection.Everywhere p q) (ho : other.Everywhere p q) :
    (selection.absorb other).Everywhere p q := by
  obtain ⟨here, hfields, hbranches⟩ := everywhere_iff.mp hs
  obtain ⟨-, hfields', hbranches'⟩ := everywhere_iff.mp ho
  rw [← hon] at hfields'
  exact everywhere_iff.mpr ⟨here, List.forall_mem_append.mpr ⟨hfields, hfields'⟩,
    List.forall_mem_append.mpr ⟨hbranches, hbranches'⟩⟩

theorem everywhere_collapse {selection : LinkedSelection} (hs : selection.Everywhere p q) :
    selection.collapse.Everywhere p q := by
  obtain ⟨here, hfields, hbranches⟩ := everywhere_iff.mp hs
  refine everywhere_iff.mpr ⟨here, List.forall_mem_append.mpr ⟨hfields, ?_⟩, ?_⟩
  · intro field hf
    obtain ⟨branch, hb, hf⟩ := List.mem_flatMap.mp hf
    split at hf
    · next hon =>
      have := (everywhere_iff.mp (hbranches branch hb)).2.1 field hf
      rwa [hon] at this
    · cases hf
  · intro inner hi
    obtain ⟨branch, hb, hi⟩ := List.mem_flatMap.mp hi
    split at hi
    · exact (everywhere_iff.mp (hbranches branch hb)).2.2 inner hi
    · rw [List.mem_singleton.mp hi]
      exact hbranches branch hb

/-- What one branch takes over from another on the same type, the merged branches have if all
branches have it. -/
theorem forall_mem_mergeSiblings {motive : LinkedSelection → Prop}
    (habsorb : ∀ first other, first.on = other.on → motive first → motive other →
      motive (first.absorb other))
    {branches : List LinkedSelection} (h : ∀ branch ∈ branches, motive branch) :
    ∀ branch ∈ mergeSiblings branches, motive branch := by
  have hmerge (branch : LinkedSelection) (hb : motive branch) (merged : List LinkedSelection)
      (hm : ∀ other ∈ merged, motive other) :
      ∀ other ∈ mergeBranch branch merged, motive other := by
    induction merged with
    | nil => simpa [mergeBranch] using hb
    | cons first rest ih =>
        obtain ⟨hfirst, hrest⟩ := List.forall_mem_cons.mp hm
        rw [mergeBranch]
        split
        · next hon =>
          exact List.forall_mem_cons.mpr ⟨habsorb first branch hon hfirst hb, hrest⟩
        · exact List.forall_mem_cons.mpr ⟨hfirst, ih hrest⟩
  have hfold (branches merged : List LinkedSelection) (h : ∀ branch ∈ branches, motive branch)
      (hm : ∀ branch ∈ merged, motive branch) :
      ∀ branch ∈ branches.foldl (fun merged branch => mergeBranch branch merged) merged,
        motive branch := by
    induction branches generalizing merged with
    | nil => exact hm
    | cons branch rest ih =>
        obtain ⟨hfirst, hrest⟩ := List.forall_mem_cons.mp h
        exact ih _ hrest (hmerge branch hfirst merged hm)
  exact hfold branches [] h (by simp)

theorem everywhere_flatten {selection : LinkedSelection} (hs : selection.Everywhere p q) :
    selection.flatten.Everywhere p q := by
  induction selection using flatten.induct with
  | case1 selection ihNested ihBranch =>
      obtain ⟨here, hfields, hbranches⟩ := everywhere_iff.mp (everywhere_collapse hs)
      have hmerged := forall_mem_mergeSiblings (fun _ _ => everywhere_absorb) hbranches
      rw [flatten_eq]
      refine everywhere_iff.mpr ⟨here, List.forall_mem_map.mpr fun field hf => ?_,
        List.forall_mem_map.mpr fun branch hb =>
          ihBranch branch hb (hmerged branch hb)⟩
      obtain ⟨hq, hinner⟩ := hfields field hf
      refine ⟨?_, fun inner hi => ?_⟩
      · rw [Field.mapNested_mapNested, show Selection.on ∘ flatten = Selection.on from
          funext flatten_on]
        exact hq
      · rw [Field.nested?_mapNested] at hi
        obtain ⟨nested, hn, rfl⟩ := Option.map_eq_some_iff.mp hi
        exact ihNested field hf nested hn (hinner nested hn)

end QueryShape.Selection
