import QueryShape.Proofs.DependencyOrder

/-!
# Cycles of fragments

What has no link order spreads a name that none declares or has a fragment that reaches itself. In
the second case just these fragments are named.
-/

namespace QueryShape

namespace LinkOrder

variable {names : List String} {spreadBy : String → List String}

/-- A fragment spreads another, or one that reaches it. -/
def Reaches (spreadBy : String → List String) : String → String → Prop :=
  Relation.TransGen fun name reference => reference ∈ spreadBy name

def Known (names : List String) (spreadBy : String → List String) : Prop :=
  ∀ name ∈ names, ∀ reference ∈ spreadBy name, reference ∈ names

theorem Known.mem_of_reaches (hknown : Known names spreadBy) {name reference : String}
    (hn : name ∈ names) (h : Reaches spreadBy name reference) : reference ∈ names := by
  induction h with
  | single hr => exact hknown name hn _ hr
  | tail _ hr ih => exact hknown _ ih _ hr

theorem Known.pointsTo_closure_iff (hknown : Known names spreadBy) (i j : Fin names.length) :
    (spreads names spreadBy).closure.pointsTo i j = true ↔
      Reaches spreadBy (names.get i) (names.get j) := by
  have hedge (i j : Fin names.length) :
      (spreads names spreadBy).pointsTo i j = true ↔ names.get j ∈ spreadBy (names.get i) := by
    rw [pointsTo_spreads, List.contains_iff_mem]
  rw [Graph.pointsTo_closure_iff]
  constructor
  · exact Relation.TransGen.lift names.get (fun i j hij => (hedge i j).mp hij) i j
  · intro h
    -- The path is followed from its start, so its end stays open.
    generalize hend : names.get j = reference at h
    induction h generalizing j with
    | single hr => exact .single ((hedge i j).mpr (hend ▸ hr))
    | tail hpath hr ih =>
        have hmiddle := hknown.mem_of_reaches (names.get_mem i) hpath
        obtain ⟨k, heq⟩ := List.mem_iff_get.mp hmiddle
        refine (ih k heq).tail ((hedge k j).mpr ?_)
        rw [hend, heq]
        exact hr

/-- All that can come of the search for a link order. -/
inductive Verdict (names : List String) (spreadBy : String → List String) :
    Typing (List String) → Prop where
  | unknown {name user : String} (hu : user ∈ names) (hs : name ∈ spreadBy user)
      (hn : name ∉ names) : Verdict names spreadBy (.error (.unknownFragment name))
  | cyclic {cyclic : List String} (hknown : Known names spreadBy) (hne : cyclic ≠ [])
      (hsub : cyclic.Sublist names)
      (hmem : ∀ name, name ∈ cyclic ↔ name ∈ names ∧ Reaches spreadBy name name) :
      Verdict names spreadBy (.error (.cyclicFragments cyclic))
  | ordered {order : List String} (hknown : Known names spreadBy)
      (hacyclic : ∀ name ∈ names, ¬ Reaches spreadBy name name) :
      Verdict names spreadBy (.ok order)

theorem map_get_filter_sublist (p : Fin names.length → Bool) :
    (((List.finRange names.length).filter p).map names.get).Sublist names := by
  have hsub := (List.filter_sublist (l := List.finRange names.length) (p := p)).map names.get
  rwa [List.map_get_finRange] at hsub

/-- The nodes that the closure finds on cycles are the fragments that reach themselves. -/
theorem Known.mem_cyclic_iff (hknown : Known names spreadBy) (name : String) :
    name ∈ ((List.finRange names.length).filter fun i =>
        (spreads names spreadBy).closure.pointsTo i i).map names.get ↔
      name ∈ names ∧ Reaches spreadBy name name := by
  simp only [List.mem_map, List.mem_filter, List.mem_finRange, true_and,
    hknown.pointsTo_closure_iff]
  constructor
  · rintro ⟨i, hi, rfl⟩
    exact ⟨names.get_mem i, hi⟩
  · rintro ⟨hn, hr⟩
    obtain ⟨i, rfl⟩ := List.mem_iff_get.mp hn
    exact ⟨i, hr, rfl⟩

theorem exists_reaches {cyclic : List String} (hne : cyclic ≠ [])
    (hmem : ∀ name, name ∈ cyclic ↔ name ∈ names ∧ Reaches spreadBy name name) :
    ∃ name ∈ names, Reaches spreadBy name name := by
  obtain ⟨name, hn⟩ := List.exists_mem_of_ne_nil _ hne
  exact ⟨name, (hmem name).mp hn⟩

theorem verdict_sorted (names : List String) (spreadBy : String → List String) :
    Verdict names spreadBy (sorted names spreadBy) := by
  unfold sorted
  cases hu : unknown? names spreadBy with
  | some name =>
      obtain ⟨user, huser, hs⟩ := List.mem_flatMap.mp (List.mem_of_find?_eq_some hu)
      exact .unknown huser hs (by simpa using List.find?_some hu)
  | none =>
      have hknown : Known names spreadBy := mem_of_unknown?_eq_none hu
      dsimp only
      split
      · next hcyclic =>
        exact .cyclic hknown (by simpa using hcyclic) (map_get_filter_sublist _)
          hknown.mem_cyclic_iff
      · next hcyclic =>
        refine .ordered hknown fun name hn hr => hcyclic ?_
        obtain ⟨i, hi, -⟩ := List.mem_map.mp ((hknown.mem_cyclic_iff name).mpr ⟨hn, hr⟩)
        simpa using ⟨i, (List.mem_filter.mp hi).2⟩

end LinkOrder

namespace Fragments

variable {fragments : Fragments}

def Acyclic (fragments : Fragments) : Prop :=
  ∀ name ∈ fragments.keys, ¬ LinkOrder.Reaches fragments.spreadBy name name

theorem exists_linkOrder_eq_ok (hknown : LinkOrder.Known fragments.keys fragments.spreadBy)
    (hacyclic : fragments.Acyclic) : ∃ order, fragments.linkOrder = .ok order := by
  have hverdict := LinkOrder.verdict_sorted fragments.keys fragments.spreadBy
  unfold linkOrder
  generalize LinkOrder.sorted fragments.keys fragments.spreadBy = outcome at hverdict ⊢
  cases hverdict with
  | unknown hu hs hn => exact absurd (hknown _ hu _ hs) hn
  | cyclic _ hne _ hmem =>
      obtain ⟨name, hn, hr⟩ := LinkOrder.exists_reaches hne hmem
      exact absurd hr (hacyclic name hn)
  | ordered _ _ => exact ⟨_, rfl⟩

theorem acyclic_of_linkOrder {order : List String} (h : fragments.linkOrder = .ok order) :
    fragments.Acyclic := by
  have hverdict := LinkOrder.verdict_sorted fragments.keys fragments.spreadBy
  unfold linkOrder at h
  rw [h] at hverdict
  cases hverdict with
  | ordered _ hacyclic => exact hacyclic

end Fragments
end QueryShape
