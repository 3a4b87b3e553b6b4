import Mathlib.Data.List.Nodup
import QueryShape.Proofs.Components
import QueryShape.Proofs.StableOrder

/-!
# Why fragments have no link order

Fragments have no link order where a name is spread that none declares, or else where some fragments
reach themselves. Just these are named, by whatever search for components.
-/

namespace QueryShape

theorem eq_of_sublist_of_mem_iff {α : Type} {xs ys all : List α} (hall : all.Nodup)
    (hx : xs.Sublist all) (hy : ys.Sublist all) (h : ∀ a, a ∈ xs ↔ a ∈ ys) : xs = ys := by
  have hperm : xs.Perm ys :=
    (List.perm_ext_iff_of_nodup (hall.sublist hx) (hall.sublist hy)).mpr h
  exact (hall.perm_iff_eq_of_sublist hx hy).mp hperm

namespace Fragments

variable {fragments : Fragments}

def graph (fragments : Fragments) : Graph fragments.keys.length :=
  LinkOrder.spreads fragments.keys fragments.spreadBy

theorem mem_keys_of_spreads {user name : String} (h : fragments.Spreads user name) :
    user ∈ fragments.keys :=
  mem_keys_of_reaches (.single h)

theorem known_iff : LinkOrder.Known fragments.keys fragments.spreadBy ↔
    ∀ user name, fragments.Spreads user name → name ∈ fragments.keys := by
  constructor
  · intro hknown user name h
    exact hknown user (mem_keys_of_spreads h) name (mem_spreadBy_iff.mpr h)
  · intro hknown user _ name h
    exact hknown user name (mem_spreadBy_iff.mp h)

theorem reaches_self_iff {name : String} :
    name ∈ fragments.keys ∧ LinkOrder.Reaches fragments.spreadBy name name ↔
      fragments.Reaches name name := by
  rw [← reaches_iff]
  exact ⟨And.right, fun hr => ⟨mem_keys_of_reaches hr, hr⟩⟩

theorem verdict_linkOrder (fragments : Fragments) :
    LinkOrder.Verdict fragments.keys fragments.spreadBy fragments.linkOrder :=
  LinkOrder.verdict_sorted fragments.keys fragments.spreadBy

theorem spreads_of_linkOrder_eq_unknown {name : String}
    (h : fragments.linkOrder = .error (.unknownFragment name)) :
    ∃ user, fragments.Spreads user name ∧ name ∉ fragments.keys := by
  have hverdict := fragments.verdict_linkOrder
  rw [h] at hverdict
  cases hverdict with
  | unknown _ hs hn => exact ⟨_, mem_spreadBy_iff.mp hs, hn⟩

theorem known_of_linkOrder_ne_unknown
    (h : ∀ name, fragments.linkOrder ≠ .error (.unknownFragment name)) :
    LinkOrder.Known fragments.keys fragments.spreadBy := by
  have hverdict := fragments.verdict_linkOrder
  generalize fragments.linkOrder = outcome at h hverdict
  cases hverdict with
  | unknown => exact absurd rfl (h _)
  | cyclic hknown => exact hknown
  | ordered hknown => exact hknown

/-- Where all names are declared, it is an error that some fragments reach themselves, and these are
named in the order of their declaration. -/
theorem linkOrder_eq_cyclic_iff (hknown : LinkOrder.Known fragments.keys fragments.spreadBy)
    {names : List String} :
    fragments.linkOrder = .error (.cyclicFragments names) ↔
      names ≠ [] ∧ names.Sublist fragments.keys ∧
        ∀ name, name ∈ names ↔ fragments.Reaches name name := by
  have hverdict := fragments.verdict_linkOrder
  constructor
  · intro h
    rw [h] at hverdict
    cases hverdict with
    | cyclic _ hne hsub hmem =>
        simp only [reaches_self_iff] at hmem
        exact ⟨hne, hsub, hmem⟩
  · intro ⟨hne, hsub, hmem⟩
    generalize fragments.linkOrder = outcome at hverdict ⊢
    cases hverdict with
    | unknown hu hs hn => exact absurd (hknown _ hu _ hs) hn
    | cyclic _ _ hsub' hmem' =>
        simp only [reaches_self_iff] at hmem'
        have hsame := eq_of_sublist_of_mem_iff fragments.nodup hsub' hsub fun name =>
          (hmem' name).trans (hmem name).symm
        rw [hsame]
    | ordered _ hacyclic =>
        obtain ⟨name, hn⟩ := List.exists_mem_of_ne_nil _ hne
        have hreach := reaches_self_iff.mpr ((hmem name).mp hn)
        exact absurd hreach.2 (hacyclic name hreach.1)

theorem map_cyclicNodes (hknown : LinkOrder.Known fragments.keys fragments.spreadBy)
    {groups : List (List (Fin fragments.keys.length))} (h : fragments.graph.Components groups) :
    ((fragments.graph.cyclicNodes groups).map fragments.keys.get).Sublist fragments.keys ∧
      ∀ name, name ∈ (fragments.graph.cyclicNodes groups).map fragments.keys.get ↔
        fragments.Reaches name name := by
  rw [h.cyclicNodes_eq]
  refine ⟨LinkOrder.map_get_filter_sublist _, fun name => ?_⟩
  rw [graph, hknown.mem_cyclic_iff, reaches_self_iff]

theorem linkOrder_eq_cyclicNodes_iff
    (hknown : LinkOrder.Known fragments.keys fragments.spreadBy)
    {groups : List (List (Fin fragments.keys.length))} (h : fragments.graph.Components groups)
    {names : List String} :
    fragments.linkOrder = .error (.cyclicFragments names) ↔
      names ≠ [] ∧ names = (fragments.graph.cyclicNodes groups).map fragments.keys.get := by
  obtain ⟨hsub, hmem⟩ := map_cyclicNodes hknown h
  rw [linkOrder_eq_cyclic_iff hknown]
  constructor
  · intro ⟨hne, hsub', hmem'⟩
    have hsame := eq_of_sublist_of_mem_iff fragments.nodup hsub' hsub fun name =>
      (hmem' name).trans (hmem name).symm
    exact ⟨hne, hsame⟩
  · intro ⟨hne, hsame⟩
    subst hsame
    exact ⟨hne, hsub, hmem⟩

theorem exists_linkOrder_eq_cyclic_iff
    (hknown : LinkOrder.Known fragments.keys fragments.spreadBy) :
    (∃ names, fragments.linkOrder = .error (.cyclicFragments names)) ↔
      ∃ name, fragments.Reaches name name := by
  constructor
  · intro ⟨names, h⟩
    obtain ⟨hne, _, hmem⟩ := (linkOrder_eq_cyclic_iff hknown).mp h
    obtain ⟨name, hn⟩ := List.exists_mem_of_ne_nil names hne
    exact ⟨name, (hmem name).mp hn⟩
  · intro ⟨name, hr⟩
    obtain ⟨groups, hgroups⟩ := fragments.graph.exists_components
    have hn := ((map_cyclicNodes hknown hgroups).2 name).mpr hr
    exact ⟨_, (linkOrder_eq_cyclicNodes_iff hknown hgroups).mpr ⟨List.ne_nil_of_mem hn, rfl⟩⟩

theorem exists_linkOrder_eq_ok_iff
    (hknown : LinkOrder.Known fragments.keys fragments.spreadBy) :
    (∃ order, fragments.linkOrder = .ok order) ↔ ¬ ∃ name, fragments.Reaches name name := by
  constructor
  · intro ⟨order, h⟩ ⟨name, hr⟩
    have hself := reaches_self_iff.mpr hr
    exact acyclic_of_linkOrder h name hself.1 hself.2
  · intro hacyclic
    apply exists_linkOrder_eq_ok hknown
    intro name hn hr
    exact hacyclic ⟨name, reaches_self_iff.mp ⟨hn, hr⟩⟩

/-- There is no link order because of a name that is not declared exactly if some fragment spreads
such a name, at any depth, and the name told is one of these. Where all names are declared, there is
none because of cycles exactly if some fragment reaches itself by one or more spreads; told are just
these fragments, each once, in the order of their declaration, and they are the nodes of the cyclic
components of the graph of spreads, in whatever order the components are found. In all other cases
there is a link order. -/
theorem linkOrder_errors_exact (fragments : Fragments) :
    ((∃ name, fragments.linkOrder = .error (.unknownFragment name)) ↔
      ∃ user name, fragments.Spreads user name ∧ name ∉ fragments.keys) ∧
    (∀ name, fragments.linkOrder = .error (.unknownFragment name) →
      ∃ user, fragments.Spreads user name ∧ name ∉ fragments.keys) ∧
    ((∀ user name, fragments.Spreads user name → name ∈ fragments.keys) →
      ((∃ names, fragments.linkOrder = .error (.cyclicFragments names)) ↔
        ∃ name, fragments.Reaches name name) ∧
      (∀ names, fragments.linkOrder = .error (.cyclicFragments names) →
        (∀ name, name ∈ names ↔ fragments.Reaches name name) ∧
          names.Nodup ∧ names.Sublist fragments.keys) ∧
      (∃ groups, fragments.graph.Components groups) ∧
      (∀ groups, fragments.graph.Components groups → ∀ names,
        fragments.linkOrder = .error (.cyclicFragments names) ↔
          names ≠ [] ∧ names = (fragments.graph.cyclicNodes groups).map fragments.keys.get) ∧
      ((∃ order, fragments.linkOrder = .ok order) ↔ ¬ ∃ name, fragments.Reaches name name)) := by
  refine ⟨⟨?_, ?_⟩, fun _ => spreads_of_linkOrder_eq_unknown, ?_⟩
  · intro ⟨name, h⟩
    obtain ⟨user, hs, hn⟩ := spreads_of_linkOrder_eq_unknown h
    exact ⟨user, name, hs, hn⟩
  · intro ⟨user, name, hs, hn⟩
    apply Classical.byContradiction
    intro hno
    have hknown := known_of_linkOrder_ne_unknown fun name h => hno ⟨name, h⟩
    exact hn (known_iff.mp hknown user name hs)
  · intro hdeclared
    have hknown := known_iff.mpr hdeclared
    refine ⟨exists_linkOrder_eq_cyclic_iff hknown, ?_, fragments.graph.exists_components,
      fun groups hgroups names => linkOrder_eq_cyclicNodes_iff hknown hgroups,
      exists_linkOrder_eq_ok_iff hknown⟩
    intro names h
    obtain ⟨_, hsub, hmem⟩ := (linkOrder_eq_cyclic_iff hknown).mp h
    exact ⟨hmem, fragments.nodup.sublist hsub, hsub⟩

def tangledFragments : Fragments :=
  let spreading (name : String) : Selection String := ⟨"Droid", ["Droid"], [], [], [name]⟩
  ⟨[("Lead", spreading "First"), ("First", spreading "Second"),
    ("Second", ⟨"Droid", ["Droid"],
      [⟨"friends", [.list], .selection (spreading "First")⟩], [], []⟩)], by decide⟩

private theorem tangledFragments_spreads_iff {name reference : String} :
    tangledFragments.Spreads name reference ↔
      ((name = "Lead" ∨ name = "Second") ∧ reference = "First") ∨
        (name = "First" ∧ reference = "Second") := by
  rw [← mem_spreadBy_iff, spreadBy]
  simp only [tangledFragments, OrderedMap.find?, OrderedMap.lookup_cons_eq, List.lookup_nil]
  split_ifs <;> simp_all [Selection.references, Selection.fieldReferences,
    Selection.branchReferences]

private theorem tangledFragments_reaches_self_iff {name : String} :
    tangledFragments.Reaches name name ↔ name ∈ ["First", "Second"] := by
  have hforth : tangledFragments.Spreads "First" "Second" :=
    tangledFragments_spreads_iff.mpr (by simp)
  have hback : tangledFragments.Spreads "Second" "First" :=
    tangledFragments_spreads_iff.mpr (by simp)
  constructor
  · intro h
    obtain ⟨user, _, hlast⟩ := Relation.TransGen.tail'_iff.mp h
    cases tangledFragments_spreads_iff.mp hlast with
    | inl first => simp [first.2]
    | inr second => simp [second.2]
  · intro h
    cases h with
    | head => exact (Relation.TransGen.single hforth).tail hback
    | tail _ h =>
        rw [List.mem_singleton.mp h]
        exact (Relation.TransGen.single hback).tail hforth

theorem linkOrder_errors_exact_tangledFragments :
    (∀ user name, tangledFragments.Spreads user name → name ∈ tangledFragments.keys) ∧
      tangledFragments.linkOrder = .error (.cyclicFragments ["First", "Second"]) := by
  have hdeclared (user name : String) (h : tangledFragments.Spreads user name) :
      name ∈ tangledFragments.keys := by
    cases tangledFragments_spreads_iff.mp h with
    | inl first => simp [first.2, tangledFragments, OrderedMap.keys]
    | inr second => simp [second.2, tangledFragments, OrderedMap.keys]
  obtain ⟨hcyclic, hnames, _⟩ := tangledFragments.linkOrder_errors_exact.2.2 hdeclared
  obtain ⟨names, herror⟩ := hcyclic.mpr ⟨"First", tangledFragments_reaches_self_iff.mpr (by simp)⟩
  obtain ⟨hmem, _, hsub⟩ := hnames names herror
  have htold : names = ["First", "Second"] :=
    eq_of_sublist_of_mem_iff tangledFragments.nodup hsub (by decide) fun name =>
      (hmem name).trans tangledFragments_reaches_self_iff
  rw [htold] at herror
  exact ⟨hdeclared, herror⟩

end Fragments
end QueryShape
