import QueryShape.Linked
import QueryShape.Proofs.Outcome

/-!
# Naive expansion

Each spread stands for a branch with the fragment's selection, in which spreads are replaced in the
same way. Linking one selection is one such replacement.
-/

namespace QueryShape

namespace Selection

mutual

/-- Puts a branch in place of each spread: the selection that its name stands for. -/
def substitute (meaning : String → Option LinkedSelection) :
    Selection String → Option LinkedSelection
  | ⟨on, possible, fields, branches, spreads⟩ => do
      let fields ← substituteFields meaning fields
      let branches ← substituteBranches meaning branches
      let spliced ← spreads.mapM meaning
      return ⟨on, possible, fields, branches ++ spliced, []⟩

def substituteFields (meaning : String → Option LinkedSelection) :
    List (Field (Selection String)) → Option (List (Field LinkedSelection))
  | [] => return []
  | ⟨key, wrapping, core⟩ :: rest => do
      let core ← substituteCore meaning core
      return ⟨key, wrapping, core⟩ :: (← substituteFields meaning rest)

def substituteCore (meaning : String → Option LinkedSelection) :
    OutputCore (Selection String) → Option (OutputCore LinkedSelection)
  | .scalar name => return .scalar name
  | .enum values => return .enum values
  | .typename => return .typename
  | .selection nested => return .selection (← nested.substitute meaning)

def substituteBranches (meaning : String → Option LinkedSelection) :
    List (Selection String) → Option (List LinkedSelection)
  | [] => return []
  | branch :: rest => do
      let branch ← branch.substitute meaning
      return branch :: (← substituteBranches meaning rest)

end

end Selection

/-- Expands all spreads, as far as they lie inside one another at most `levels` deep. -/
def Fragments.expand (fragments : Fragments) : Nat → Selection String → Option LinkedSelection
  | 0, selection => selection.substitute fun _ => none
  | levels + 1, selection =>
      selection.substitute fun name => (fragments.find? name).bind (fragments.expand levels)

namespace Selection

open Outcome

/-! ### A substitution that knows more names -/

section

variable {meaning larger : String → Option LinkedSelection}

theorem mapM_meaning_eq_some_iff {names : List String} {spliced : List LinkedSelection} :
    names.mapM meaning = some spliced ↔
      List.Forall₂ (fun name linked => meaning name = some linked) names spliced := by
  induction names generalizing spliced with
  | nil => simp [eq_comm]
  | cons name rest ih =>
      simp only [List.mapM_cons, Option.bind_eq_bind, Option.bind_eq_some_iff, ih,
        List.forall₂_cons_left_iff]
      constructor
      · rintro ⟨linked, hl, others, ho, hs⟩
        cases hs
        exact ⟨linked, others, hl, ho, rfl⟩
      · rintro ⟨linked, others, hl, ho, rfl⟩
        exact ⟨linked, hl, others, ho, rfl⟩

mutual

theorem substitute_mono (hm : ∀ name linked, meaning name = some linked →
    larger name = some linked) {selection : Selection String} {linked : LinkedSelection}
    (h : selection.substitute meaning = some linked) :
    selection.substitute larger = some linked := by
  match selection with
  | ⟨on, possible, fields, branches, spreads⟩ =>
      simp only [substitute, Option.bind_eq_bind, Option.bind_eq_some_iff] at h ⊢
      obtain ⟨fields', hf, branches', hb, spliced, hs, hl⟩ := h
      exact ⟨fields', substituteFields_mono hm hf, branches', substituteBranches_mono hm hb,
        spliced, mapM_meaning_eq_some_iff.mpr ((mapM_meaning_eq_some_iff.mp hs).imp hm), hl⟩

theorem substituteFields_mono (hm : ∀ name linked, meaning name = some linked →
    larger name = some linked) {fields : List (Field (Selection String))}
    {linked : List (Field LinkedSelection)}
    (h : substituteFields meaning fields = some linked) :
    substituteFields larger fields = some linked := by
  match fields with
  | [] => simpa [substituteFields] using h
  | ⟨key, wrapping, core⟩ :: rest =>
      simp only [substituteFields, Option.bind_eq_bind, Option.bind_eq_some_iff] at h ⊢
      obtain ⟨core', hc, others, ho, hl⟩ := h
      exact ⟨core', substituteCore_mono hm hc, others, substituteFields_mono hm ho, hl⟩

theorem substituteCore_mono (hm : ∀ name linked, meaning name = some linked →
    larger name = some linked) {core : OutputCore (Selection String)}
    {linked : OutputCore LinkedSelection} (h : substituteCore meaning core = some linked) :
    substituteCore larger core = some linked := by
  match core with
  | .scalar _ => simpa only [substituteCore] using h
  | .enum _ => simpa only [substituteCore] using h
  | .typename => simpa only [substituteCore] using h
  | .selection nested =>
      simp only [substituteCore, Option.bind_eq_bind, Option.bind_eq_some_iff] at h ⊢
      obtain ⟨nested', hn, hl⟩ := h
      exact ⟨nested', substitute_mono hm hn, hl⟩

theorem substituteBranches_mono (hm : ∀ name linked, meaning name = some linked →
    larger name = some linked) {branches : List (Selection String)} {linked : List LinkedSelection}
    (h : substituteBranches meaning branches = some linked) :
    substituteBranches larger branches = some linked := by
  match branches with
  | [] => simpa [substituteBranches] using h
  | branch :: rest =>
      simp only [substituteBranches, Option.bind_eq_bind, Option.bind_eq_some_iff] at h ⊢
      obtain ⟨branch', hb, others, ho, hl⟩ := h
      exact ⟨branch', substitute_mono hm hb, others, substituteBranches_mono hm ho, hl⟩

end

end

/-! ### Linking as a substitution -/

section

variable {maxDepth : Nat} {splice : Splice}

theorem spliceAll_ok {meaning : String → Option LinkedSelection}
    (hm : ∀ name fragment, splice name = .ok fragment → meaning name = some fragment.selection)
    {depth deepest : Nat} {names : List String} {spliced : List LinkedSelection}
    (h : spliceAll maxDepth splice depth names = .ok (spliced, deepest)) :
    names.mapM meaning = some spliced := by
  induction names generalizing spliced deepest with
  | nil =>
      simp only [spliceAll, pure_eq_ok, Prod.mk.injEq] at h
      simp [h.1]
  | cons name rest ih =>
      simp only [spliceAll, bind_eq_ok, Prod.exists, pure_eq_ok, Prod.mk.injEq] at h
      obtain ⟨fragment, hf, _, _, others, _, ho, rfl, _⟩ := h
      simp [hm name fragment hf, ih ho]

mutual

theorem linkAt_ok {meaning : String → Option LinkedSelection}
    (hm : ∀ name fragment, splice name = .ok fragment → meaning name = some fragment.selection)
    {depth deepest : Nat} {selection : Selection String} {linked : LinkedSelection}
    (h : linkAt maxDepth splice depth selection = .ok (linked, deepest)) :
    selection.substitute meaning = some linked := by
  match selection with
  | ⟨on, possible, fields, branches, spreads⟩ =>
      simp only [linkAt, bind_eq_ok, Prod.exists, pure_eq_ok, Prod.mk.injEq] at h
      obtain ⟨_, _, fields', _, hf, branches', _, hb, spliced, _, hs, rfl, _⟩ := h
      simp [substitute, linkFields_ok hm hf, linkBranches_ok hm hb, spliceAll_ok hm hs]

theorem linkFields_ok {meaning : String → Option LinkedSelection}
    (hm : ∀ name fragment, splice name = .ok fragment → meaning name = some fragment.selection)
    {depth deepest : Nat} {fields : List (Field (Selection String))}
    {linked : List (Field LinkedSelection)}
    (h : linkFields maxDepth splice depth fields = .ok (linked, deepest)) :
    substituteFields meaning fields = some linked := by
  match fields with
  | [] =>
      simp only [linkFields, pure_eq_ok, Prod.mk.injEq] at h
      simp [substituteFields, h.1]
  | ⟨key, wrapping, core⟩ :: rest =>
      simp only [linkFields, bind_eq_ok, Prod.exists, pure_eq_ok, Prod.mk.injEq] at h
      obtain ⟨core', _, hc, others, _, ho, rfl, _⟩ := h
      simp [substituteFields, linkCore_ok hm hc, linkFields_ok hm ho]

theorem linkCore_ok {meaning : String → Option LinkedSelection}
    (hm : ∀ name fragment, splice name = .ok fragment → meaning name = some fragment.selection)
    {depth deepest : Nat} {core : OutputCore (Selection String)}
    {linked : OutputCore LinkedSelection}
    (h : linkCore maxDepth splice depth core = .ok (linked, deepest)) :
    substituteCore meaning core = some linked := by
  match core with
  | .scalar _ =>
      cases h
      rfl
  | .enum _ =>
      cases h
      rfl
  | .typename =>
      cases h
      rfl
  | .selection nested =>
      simp only [linkCore, bind_eq_ok, Prod.exists, pure_eq_ok, Prod.mk.injEq] at h
      obtain ⟨nested', _, hn, rfl, _⟩ := h
      simp [substituteCore, linkAt_ok hm hn]

theorem linkBranches_ok {meaning : String → Option LinkedSelection}
    (hm : ∀ name fragment, splice name = .ok fragment → meaning name = some fragment.selection)
    {depth deepest : Nat} {branches : List (Selection String)} {linked : List LinkedSelection}
    (h : linkBranches maxDepth splice depth branches = .ok (linked, deepest)) :
    substituteBranches meaning branches = some linked := by
  match branches with
  | [] =>
      simp only [linkBranches, pure_eq_ok, Prod.mk.injEq] at h
      simp [substituteBranches, h.1]
  | branch :: rest =>
      simp only [linkBranches, bind_eq_ok, Prod.exists, pure_eq_ok, Prod.mk.injEq] at h
      obtain ⟨branch', _, hb, others, _, ho, rfl, _⟩ := h
      simp [substituteBranches, linkAt_ok hm hb, linkBranches_ok hm ho]

end

/-! ### Why linking fails -/

theorem spliceAll_error {depth : Nat} {names : List String} {error : TypingError}
    (h : spliceAll maxDepth splice depth names = .error error) :
    .tooDeep maxDepth = error ∨ ∃ name ∈ names, splice name = .error error := by
  induction names with
  | nil => simp [spliceAll] at h
  | cons name rest ih =>
      simp only [spliceAll, bind_eq_error, pure_ne_error, and_false, exists_false, or_false,
        checkDepth_eq_error] at h
      rcases h with h | ⟨fragment, _, h | ⟨_, _, h⟩⟩
      · exact .inr ⟨name, List.mem_cons_self, h⟩
      · exact .inl h.2
      · rcases ih h with h | ⟨other, ho, h⟩
        · exact .inl h
        · exact .inr ⟨other, List.mem_cons_of_mem _ ho, h⟩

mutual

/-- Linking fails at the cap, or where a fragment that is spread somewhere is not found. -/
theorem linkAt_error {depth : Nat} {selection : Selection String} {error : TypingError}
    (h : linkAt maxDepth splice depth selection = .error error) :
    .tooDeep maxDepth = error ∨ ∃ name ∈ selection.references, splice name = .error error := by
  match selection with
  | ⟨on, possible, fields, branches, spreads⟩ =>
      simp only [linkAt, bind_eq_error, pure_ne_error, and_false, exists_false, or_false,
        checkDepth_eq_error] at h
      simp only [references, List.mem_append, or_and_right, exists_or]
      rcases h with h | ⟨_, _, h | ⟨_, _, h | ⟨_, _, h⟩⟩⟩
      · exact .inl h.2
      · exact (linkFields_error h).imp_right .inl
      · exact (linkBranches_error h).imp_right fun h => .inr (.inl h)
      · exact (spliceAll_error h).imp_right fun h => .inr (.inr h)

theorem linkFields_error {depth : Nat} {fields : List (Field (Selection String))}
    {error : TypingError} (h : linkFields maxDepth splice depth fields = .error error) :
    .tooDeep maxDepth = error ∨ ∃ name ∈ fieldReferences fields, splice name = .error error := by
  match fields with
  | [] => simp [linkFields] at h
  | ⟨key, wrapping, core⟩ :: rest =>
      simp only [linkFields, bind_eq_error, pure_ne_error, and_false, exists_false, or_false] at h
      rcases h with h | ⟨_, _, h⟩
      · rcases linkCore_error h with h | ⟨nested, rfl, name, hn, h⟩
        · exact .inl h
        · exact .inr ⟨name, List.mem_append_left _ hn, h⟩
      · rcases linkFields_error h with h | ⟨name, hn, h⟩
        · exact .inl h
        · refine .inr ⟨name, ?_, h⟩
          cases core <;> simp [fieldReferences, hn]

theorem linkCore_error {depth : Nat} {core : OutputCore (Selection String)} {error : TypingError}
    (h : linkCore maxDepth splice depth core = .error error) :
    .tooDeep maxDepth = error ∨ ∃ nested, core = .selection nested ∧
      ∃ name ∈ nested.references, splice name = .error error := by
  match core with
  | .scalar _ => cases h
  | .enum _ => cases h
  | .typename => cases h
  | .selection nested =>
      simp only [linkCore, bind_eq_error, pure_ne_error, and_false, exists_false, or_false] at h
      exact (linkAt_error h).imp_right fun h => ⟨nested, rfl, h⟩

theorem linkBranches_error {depth : Nat} {branches : List (Selection String)}
    {error : TypingError} (h : linkBranches maxDepth splice depth branches = .error error) :
    .tooDeep maxDepth = error ∨ ∃ name ∈ branchReferences branches, splice name = .error error := by
  match branches with
  | [] => simp [linkBranches] at h
  | branch :: rest =>
      simp only [linkBranches, bind_eq_error, pure_ne_error, and_false, exists_false,
        or_false] at h
      simp only [branchReferences, List.mem_append, or_and_right, exists_or]
      rcases h with h | ⟨_, _, h⟩
      · exact (linkAt_error h).imp_right .inl
      · exact (linkBranches_error h).imp_right .inr

end

end

end Selection
end QueryShape
