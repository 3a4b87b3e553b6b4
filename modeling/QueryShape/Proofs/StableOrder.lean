import Mathlib.Data.Set.Card
import QueryShape.Proofs.Cycles
import QueryShape.Proofs.Echoes
import QueryShape.Proofs.Everywhere
import QueryShape.Proofs.LinkedParts
import QueryShape.Proofs.StableSort

/-!
# The link order is a stable sort

Fragments are sorted stably by the number of fragments that each one reaches. Where none reaches
itself, this puts each one after all that it needs.
-/

namespace QueryShape

/-! ### What a fragment reaches -/

namespace Selection

variable {ρ : Type}

def Spreads (selection : Selection ρ) (name : ρ) : Prop :=
  selection.Somewhere fun inner => name ∈ inner.spreads

theorem mem_references_iff {selection : Selection ρ} {name : ρ} :
    name ∈ selection.references ↔ selection.Spreads name := by
  unfold Spreads
  constructor
  · intro h
    induction selection using induction with
    | step selection ihField ihBranch =>
        rw [references_eq, List.mem_append, List.mem_append, List.mem_flatMap,
          List.mem_flatMap] at h
        rcases h with ⟨field, hf, h⟩ | ⟨branch, hb, h⟩ | h
        · cases hn : field.nested? with
          | none => simp [hn] at h
          | some nested =>
              simp only [hn, Option.map_some, Option.getD_some] at h
              exact .inField hf hn (ihField field hf nested hn h)
        · exact .inBranch hb (ihBranch branch hb h)
        · exact .here h
  · intro h
    induction h with
    | here h =>
        rw [references_eq]
        exact List.mem_append_right _ (List.mem_append_right _ h)
    | inField hf hn _ ih =>
        rw [references_eq]
        apply List.mem_append_left
        exact List.mem_flatMap.mpr ⟨_, hf, by simpa [hn] using ih⟩
    | inBranch hb _ ih =>
        rw [references_eq]
        apply List.mem_append_right
        exact List.mem_append_left _ (List.mem_flatMap.mpr ⟨_, hb, ih⟩)

end Selection

namespace Fragments

variable {fragments : Fragments}

/-- The fragment that is declared under a name spreads another name, at some depth. -/
def Spreads (fragments : Fragments) (name reference : String) : Prop :=
  ∃ selection, fragments.find? name = some selection ∧ selection.Spreads reference

/-- A fragment spreads another one, or one that reaches it. -/
def Reaches (fragments : Fragments) : String → String → Prop :=
  Relation.TransGen fragments.Spreads

/-- The number of distinct names that a fragment reaches. -/
noncomputable def reachCount (fragments : Fragments) (name : String) : Nat :=
  {reached | fragments.Reaches name reached}.ncard

theorem mem_spreadBy_iff {name reference : String} :
    reference ∈ fragments.spreadBy name ↔ fragments.Spreads name reference := by
  unfold spreadBy Spreads
  cases hf : fragments.find? name with
  | none => simp
  | some selection => simpa using Selection.mem_references_iff

theorem reaches_iff {name reached : String} :
    fragments.Reaches name reached ↔ LinkOrder.Reaches fragments.spreadBy name reached := by
  have hspreads :
      fragments.Spreads = fun name reference => reference ∈ fragments.spreadBy name := by
    funext name reference
    exact propext mem_spreadBy_iff.symm
  unfold Reaches LinkOrder.Reaches
  rw [hspreads]

theorem mem_keys_of_reaches {name reached : String} (h : fragments.Reaches name reached) :
    name ∈ fragments.keys := by
  have hfirst : ∃ reference, fragments.Spreads name reference := by
    induction h with
    | single h => exact ⟨_, h⟩
    | tail _ _ ih => exact ih
  obtain ⟨_, _, hf, _⟩ := hfirst
  exact OrderedMap.mem_keys_of_find? hf

theorem reachCount_lt {name reached : String} (hacyclic : ¬ fragments.Reaches reached reached)
    (hfinite : {other | fragments.Reaches name other}.Finite) (h : fragments.Reaches name reached) :
    fragments.reachCount reached < fragments.reachCount name := by
  apply Set.ncard_lt_ncard _ hfinite
  constructor
  · intro other hother
    exact Relation.TransGen.trans h hother
  · intro hsub
    exact hacyclic (hsub h)

end Fragments

namespace LinkOrder

variable {names : List String} {spreadBy : String → List String}

/-- The degree of a fragment in the closure counts the names that it reaches. -/
theorem degree_closure_eq (hnodup : names.Nodup) (hknown : Known names spreadBy)
    (i : Fin names.length) :
    (spreads names spreadBy).closure.degree i =
      {name | Reaches spreadBy (names.get i) name}.ncard := by
  let reached := ((List.finRange names.length).filter
    ((spreads names spreadBy).closure.pointsTo i)).map names.get
  have hset : {name | Reaches spreadBy (names.get i) name} = (reached.toFinset : Set String) := by
    ext name
    simp only [reached, Set.mem_ofPred_eq, List.coe_toFinset, List.mem_map, List.mem_filter,
      List.mem_finRange, true_and, hknown.pointsTo_closure_iff]
    constructor
    · intro h
      obtain ⟨j, rfl⟩ := List.mem_iff_get.mp (hknown.mem_of_reaches (names.get_mem i) h)
      exact ⟨j, h, rfl⟩
    · rintro ⟨j, h, rfl⟩
      exact h
  have hdistinct : reached.Nodup :=
    ((List.nodup_finRange _).filter _).map hnodup.injective_get
  rw [hset, Set.ncard_coe_finset, List.toFinset_card_of_nodup hdistinct, Graph.degree_eq_countP,
    List.countP_eq_length_filter, List.length_map]

/-- What the search for a link order finds is the stable sort of the names by what they reach. -/
theorem stablySorted_of_sorted {order : List String} (hnodup : names.Nodup)
    (hknown : Known names spreadBy) (h : sorted names spreadBy = .ok order) :
    StablySorted (fun name => {reached | Reaches spreadBy name reached}.ncard) names order := by
  let weight (name : String) : Nat := {reached | Reaches spreadBy name reached}.ncard
  obtain ⟨-, -, rfl⟩ := sorted_eq_ok h
  have hmap := List.map_mergeSort (f := names.get) (l := List.finRange names.length)
    (r := fun i j => decide ((spreads names spreadBy).closure.degree i ≤
      (spreads names spreadBy).closure.degree j))
    (s := fun a b => decide (weight a ≤ weight b)) fun i _ j _ => by
      rw [degree_closure_eq hnodup hknown, degree_closure_eq hnodup hknown]
  rw [hmap, List.map_get_finRange]
  exact stablySorted_mergeSort weight names

end LinkOrder

namespace Fragments

variable {fragments : Fragments}

/-- Where every spread names a declared fragment and no fragment reaches itself, there is a link
order. It holds each declared name once, it is the stable sort of the declared names by how many
distinct ones they reach, which is unique, and each name comes after all that it reaches. -/
theorem linkOrder_sorts_stably
    (hknown : ∀ name reference, fragments.Spreads name reference → reference ∈ fragments.keys)
    (hacyclic : ∀ name, ¬ fragments.Reaches name name) :
    ∃ order, fragments.linkOrder = .ok order ∧ order.Perm fragments.keys ∧
      (∀ sorted, StablySorted fragments.reachCount fragments.keys sorted ↔ sorted = order) ∧
      ∀ name reached, fragments.Reaches name reached →
        order.idxOf reached < order.idxOf name := by
  have hdeclared : LinkOrder.Known fragments.keys fragments.spreadBy := fun name _ reference hr =>
    hknown name reference (mem_spreadBy_iff.mp hr)
  have hnone : fragments.Acyclic := fun name _ hr => hacyclic name (reaches_iff.mpr hr)
  obtain ⟨order, ho⟩ := exists_linkOrder_eq_ok hdeclared hnone
  have hsort : StablySorted fragments.reachCount fragments.keys order := by
    have hsorted := LinkOrder.stablySorted_of_sorted fragments.nodup hdeclared ho
    simp only [← reaches_iff] at hsorted
    exact hsorted
  refine ⟨order, ho, hsort.perm, fun sorted => ⟨fun h => h.unique hsort, ?_⟩, ?_⟩
  · rintro rfl
    exact hsort
  · intro name reached hr
    have hname := mem_keys_of_reaches hr
    have hwithin {other : String} (h : fragments.Reaches name other) : other ∈ fragments.keys :=
      hdeclared.mem_of_reaches hname (reaches_iff.mp h)
    have hfinite : {other | fragments.Reaches name other}.Finite :=
      (List.finite_toSet fragments.keys).subset fun _ h => hwithin h
    exact idxOf_lt_of_weight_lt hsort.ascending (hsort.perm.mem_iff.mpr (hwithin hr))
      (hsort.perm.mem_iff.mpr hname) (reachCount_lt (hacyclic reached) hfinite hr)

def heroFragments : Fragments :=
  let base : Selection String := ⟨"Droid", ["Droid"], [], [], ["Base"]⟩
  ⟨[("Second", ⟨"Character", ["Human", "Droid"], [], [base], []⟩),
    ("Base", ⟨"Droid", ["Droid"], [⟨"name", [], .scalar "String"⟩], [], []⟩),
    ("First", ⟨"Droid", ["Droid"], [⟨"friends", [.list, .notNull], .selection base⟩], [], []⟩)],
    by decide⟩

private theorem heroFragments_reaches_iff {name reached : String} :
    heroFragments.Reaches name reached ↔
      (name = "Second" ∨ name = "First") ∧ reached = "Base" := by
  have hspreads (name reference : String) : heroFragments.Spreads name reference ↔
      (name = "Second" ∨ name = "First") ∧ reference = "Base" := by
    rw [← mem_spreadBy_iff, spreadBy]
    simp only [heroFragments, OrderedMap.find?, OrderedMap.lookup_cons_eq, List.lookup_nil]
    split_ifs <;> simp_all [Selection.references, Selection.fieldReferences,
      Selection.branchReferences]
  constructor
  · intro h
    induction h with
    | single h => exact (hspreads _ _).mp h
    | tail _ h ih => exact ⟨ih.1, ((hspreads _ _).mp h).2⟩
  · intro h
    exact .single ((hspreads _ _).mpr h)

theorem linkOrder_sorts_stably_heroFragments :
    (∀ name reference, heroFragments.Spreads name reference → reference ∈ heroFragments.keys) ∧
      (∀ name, ¬ heroFragments.Reaches name name) ∧
      heroFragments.linkOrder = .ok ["Base", "Second", "First"] := by
  have hknown (name reference : String) (h : heroFragments.Spreads name reference) :
      reference ∈ heroFragments.keys := by
    rw [(heroFragments_reaches_iff.mp (.single h)).2]
    decide
  have hacyclic (name : String) : ¬ heroFragments.Reaches name name := by
    rw [heroFragments_reaches_iff]
    rintro ⟨hname, rfl⟩
    revert hname
    decide
  obtain ⟨order, ho, -, hsort, -⟩ := linkOrder_sorts_stably hknown hacyclic
  refine ⟨hknown, hacyclic, ?_⟩
  have hcounts : heroFragments.reachCount "Base" = 0 ∧ heroFragments.reachCount "Second" = 1 ∧
      heroFragments.reachCount "First" = 1 := by
    simp [reachCount, heroFragments_reaches_iff]
  rw [ho, ← (hsort ["Base", "Second", "First"]).mp]
  have hkeys : heroFragments.keys = ["Second", "Base", "First"] := rfl
  rw [hkeys]
  refine ⟨by decide, by simp [hcounts], fun n => ?_⟩
  by_cases hn : n = 0
  · simp [hcounts, hn]
  · simp [List.filter_cons, hcounts, Ne.symm hn]

end Fragments
end QueryShape
