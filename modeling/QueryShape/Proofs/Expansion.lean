import Mathlib.Data.List.Induction
import QueryShape.Proofs.Linking

/-!
# Expansions

A selection has at most one expansion, and it has one if the fragments have a link order and it
spreads only declared ones: in the link order each fragment is expanded out of those before it.
-/

namespace QueryShape

open Outcome

namespace Selection

variable {meaning : String → Option LinkedSelection}

private theorem exists_mapM_meaning {names : List String}
    (h : ∀ name ∈ names, ∃ linked, meaning name = some linked) :
    ∃ spliced, names.mapM meaning = some spliced := by
  induction names with
  | nil => exact ⟨[], by simp⟩
  | cons name rest ih =>
      obtain ⟨hname, hrest⟩ := List.forall_mem_cons.mp h
      obtain ⟨linked, hl⟩ := hname
      obtain ⟨others, ho⟩ := ih hrest
      exact ⟨linked :: others, by simp [hl, ho]⟩

mutual

theorem exists_substitute {selection : Selection String}
    (h : ∀ name ∈ selection.references, ∃ linked, meaning name = some linked) :
    ∃ linked, selection.substitute meaning = some linked := by
  match selection with
  | ⟨on, possible, fields, branches, spreads⟩ =>
      simp only [references, List.forall_mem_append] at h
      obtain ⟨fields', hf⟩ := exists_substituteFields h.1
      obtain ⟨branches', hb⟩ := exists_substituteBranches h.2.1
      obtain ⟨spliced, hs⟩ := exists_mapM_meaning h.2.2
      exact ⟨⟨on, possible, fields', branches' ++ spliced, []⟩, by simp [substitute, hf, hb, hs]⟩

theorem exists_substituteFields {fields : List (Field (Selection String))}
    (h : ∀ name ∈ fieldReferences fields, ∃ linked, meaning name = some linked) :
    ∃ linked, substituteFields meaning fields = some linked := by
  match fields with
  | [] => exact ⟨[], rfl⟩
  | ⟨key, wrapping, core⟩ :: rest =>
      have hcore : ∀ nested, core = .selection nested →
          ∀ name ∈ nested.references, ∃ linked, meaning name = some linked := by
        rintro nested rfl name hn
        exact h name (by simp [fieldReferences, hn])
      have hrest : ∀ name ∈ fieldReferences rest, ∃ linked, meaning name = some linked := by
        intro name hn
        exact h name (by cases core <;> simp [fieldReferences, hn])
      obtain ⟨core', hc⟩ := exists_substituteCore hcore
      obtain ⟨others, ho⟩ := exists_substituteFields hrest
      exact ⟨⟨key, wrapping, core'⟩ :: others, by simp [substituteFields, hc, ho]⟩

theorem exists_substituteCore {core : OutputCore (Selection String)}
    (h : ∀ nested, core = .selection nested →
      ∀ name ∈ nested.references, ∃ linked, meaning name = some linked) :
    ∃ linked, substituteCore meaning core = some linked := by
  match core with
  | .scalar name => exact ⟨.scalar name, rfl⟩
  | .enum values => exact ⟨.enum values, rfl⟩
  | .typename => exact ⟨.typename, rfl⟩
  | .selection nested =>
      obtain ⟨nested', hn⟩ := exists_substitute (h nested rfl)
      exact ⟨.selection nested', by simp [substituteCore, hn]⟩

theorem exists_substituteBranches {branches : List (Selection String)}
    (h : ∀ name ∈ branchReferences branches, ∃ linked, meaning name = some linked) :
    ∃ linked, substituteBranches meaning branches = some linked := by
  match branches with
  | [] => exact ⟨[], rfl⟩
  | branch :: rest =>
      simp only [branchReferences, List.forall_mem_append] at h
      obtain ⟨branch', hb⟩ := exists_substitute h.1
      obtain ⟨others, ho⟩ := exists_substituteBranches h.2
      exact ⟨branch' :: others, by simp [substituteBranches, hb, ho]⟩

end

mutual

theorem exists_meaning_of_substitute {selection : Selection String} {tree : LinkedSelection}
    (h : selection.substitute meaning = some tree) :
    ∀ name ∈ selection.references, ∃ linked, meaning name = some linked := by
  match selection with
  | ⟨on, possible, fields, branches, spreads⟩ =>
      simp only [substitute, Option.bind_eq_bind, Option.bind_eq_some_iff] at h
      obtain ⟨fields', hf, branches', hb, spliced, hs, _⟩ := h
      rw [references, List.forall_mem_append, List.forall_mem_append]
      refine ⟨exists_meaning_of_substituteFields hf, exists_meaning_of_substituteBranches hb,
        fun name hn => ?_⟩
      obtain ⟨linked, _, hl⟩ := exists_of_mem_forall₂ (mapM_meaning_eq_some_iff.mp hs).flip hn
      exact ⟨linked, hl⟩

theorem exists_meaning_of_substituteFields {fields : List (Field (Selection String))}
    {trees : List (Field LinkedSelection)} (h : substituteFields meaning fields = some trees) :
    ∀ name ∈ fieldReferences fields, ∃ linked, meaning name = some linked := by
  match fields with
  | [] => simp [fieldReferences]
  | ⟨key, wrapping, core⟩ :: rest =>
      simp only [substituteFields, Option.bind_eq_bind, Option.bind_eq_some_iff] at h
      obtain ⟨core', hc, others, ho, _⟩ := h
      have hrest := exists_meaning_of_substituteFields ho
      match core with
      | .scalar _ | .enum _ | .typename => exact hrest
      | .selection nested =>
          simp only [substituteCore, Option.bind_eq_bind, Option.bind_eq_some_iff] at hc
          obtain ⟨nested', hn, _⟩ := hc
          rw [fieldReferences, List.forall_mem_append]
          exact ⟨exists_meaning_of_substitute hn, hrest⟩

theorem exists_meaning_of_substituteBranches {branches : List (Selection String)}
    {trees : List LinkedSelection} (h : substituteBranches meaning branches = some trees) :
    ∀ name ∈ branchReferences branches, ∃ linked, meaning name = some linked := by
  match branches with
  | [] => simp [branchReferences]
  | branch :: rest =>
      simp only [substituteBranches, Option.bind_eq_bind, Option.bind_eq_some_iff] at h
      obtain ⟨branch', hb, others, ho, _⟩ := h
      rw [branchReferences, List.forall_mem_append]
      exact ⟨exists_meaning_of_substitute hb, exists_meaning_of_substituteBranches ho⟩

end

end Selection

namespace Fragments

variable {declared : Fragments}

theorem Expands.mem_keys {selection : Selection String} {tree : LinkedSelection}
    (h : declared.Expands selection tree) :
    ∀ name ∈ selection.references, name ∈ declared.keys := by
  obtain ⟨levels, h⟩ := h
  intro name hn
  obtain ⟨linked, hl⟩ :=
    Selection.exists_meaning_of_substitute (h (levels + 1) (Nat.le_succ levels)) name hn
  obtain ⟨fragment, hf, _⟩ := Option.bind_eq_some_iff.mp hl
  exact OrderedMap.mem_keys_of_find? hf

theorem Expands.unique {selection : Selection String} {tree tree' : LinkedSelection}
    (h : declared.Expands selection tree) (h' : declared.Expands selection tree') :
    tree = tree' := by
  obtain ⟨levels, h⟩ := h
  obtain ⟨levels', h'⟩ := h'
  have hmax := h (max levels levels') (Nat.le_max_left _ _)
  rw [h' (max levels levels') (Nat.le_max_right _ _)] at hmax
  exact (Option.some.inj hmax).symm

theorem expands_of_expand (levels : Nat) {selection : Selection String} {tree : LinkedSelection}
    (h : declared.expand levels selection = some tree) : declared.Expands selection tree :=
  ⟨levels, fun _ hle => expand_mono hle h⟩

/-- In a dependency order each fragment can be expanded once those before it can be. -/
private theorem exists_expand_of_mem {order : List String} (ho : declared.linkOrder = .ok order)
    (done rest : List String) (hsplit : order = done ++ rest) :
    ∀ name ∈ done, ∃ tree,
      (declared.find? name).bind (declared.expand done.length) = some tree := by
  induction done using List.reverseRecOn generalizing rest with
  | nil => simp
  | append_singleton done name ih =>
      have hcut : order = done ++ name :: rest := by simpa using hsplit
      have hbefore := ih (name :: rest) hcut
      intro other hother
      rw [List.length_append, List.length_singleton]
      rcases List.mem_append.mp hother with hd | he
      · obtain ⟨tree, htree⟩ := hbefore other hd
        obtain ⟨raw, hraw, htree⟩ := Option.bind_eq_some_iff.mp htree
        exact ⟨tree, Option.bind_eq_some_iff.mpr ⟨raw, hraw, expand_succ htree⟩⟩
      · rw [List.mem_singleton.mp he]
        obtain ⟨hname, _, hrefs⟩ := next_of_linkOrder ho hcut
        obtain ⟨raw, hraw⟩ := OrderedMap.mem_keys_iff.mp hname
        have hspread : ∀ reference ∈ raw.references, ∃ tree,
            (declared.find? reference).bind (declared.expand done.length) = some tree := by
          intro reference hr
          rw [← spreadBy_eq hraw] at hr
          exact hbefore reference (hrefs reference hr)
        obtain ⟨tree, htree⟩ := Selection.exists_substitute hspread
        exact ⟨tree, Option.bind_eq_some_iff.mpr ⟨raw, hraw, htree⟩⟩

/-- Where fragments have a link order, every selection that spreads declared fragments has an
expansion. -/
theorem exists_expands {order : List String} (ho : declared.linkOrder = .ok order)
    {selection : Selection String} (hknown : ∀ name ∈ selection.references, name ∈ declared.keys) :
    ∃ tree, declared.Expands selection tree := by
  have hspread : ∀ name ∈ selection.references, ∃ tree,
      (declared.find? name).bind (declared.expand order.length) = some tree := by
    intro name hn
    have hmem := (LinkOrder.sorted_spec ho).1.mem_iff.mpr (hknown name hn)
    exact exists_expand_of_mem ho order [] (by simp) name hmem
  obtain ⟨tree, htree⟩ := Selection.exists_substitute hspread
  exact ⟨tree, expands_of_expand (order.length + 1) htree⟩

end Fragments
end QueryShape
