import QueryShape.Proofs.Height

/-!
# Linking measures heights

The linker only adds up the heights that are noted for fragments. As long as these are the true
heights, linking is one check of the depth that the expansion reaches.
-/

namespace QueryShape

open Outcome

/-- Fragments are spliced in with their heights noted. -/
def Splice.Measured (splice : Splice) : Prop :=
  ∀ name fragment, splice name = .ok fragment → fragment.height = fragment.selection.height

/-- The selection that is spliced in for a name. -/
def Splice.meaning (splice : Splice) (name : String) : Option LinkedSelection :=
  match splice name with
  | .ok fragment => some fragment.selection
  | .error _ => none

theorem Splice.meaning_eq_some_iff {splice : Splice} {name : String} {linked : LinkedSelection} :
    splice.meaning name = some linked ↔
      ∃ fragment, splice name = .ok fragment ∧ fragment.selection = linked := by
  unfold meaning
  cases splice name <;> simp

namespace Selection

variable {maxDepth : Nat} {splice : Splice}

theorem deepestBranch_append {ρ : Type} (depth : Nat) (branches others : List (Selection ρ)) :
    deepestBranch depth (branches ++ others) =
      max (deepestBranch depth branches) (deepestBranch depth others) := by
  induction branches with
  | nil => simp [deepestBranch]
  | cons branch rest ih => rw [List.cons_append, deepestBranch, deepestBranch, ih, Nat.max_assoc]

theorem spliceAll_of_meaning (hs : splice.Measured) (depth : Nat) {names : List String}
    {spliced : List LinkedSelection} (h : names.mapM splice.meaning = some spliced) :
    spliceAll maxDepth splice depth names = (do
      checkDepth maxDepth (deepestBranch (depth + 1) spliced)
      return (spliced, deepestBranch (depth + 1) spliced)) := by
  induction names generalizing spliced with
  | nil =>
      rw [List.mapM_nil] at h
      cases h
      rw [spliceAll, deepestBranch, checkDepth_zero, pure_bind]
  | cons name rest ih =>
      simp only [List.mapM_cons, Option.bind_eq_bind, Option.bind_eq_some_iff] at h
      obtain ⟨linked, hl, others, ho, hsp⟩ := h
      cases hsp
      obtain ⟨fragment, hf, rfl⟩ := Splice.meaning_eq_some_iff.mp hl
      have hreached : depth + fragment.height = fragment.selection.deepest (depth + 1) := by
        rw [deepest_succ, hs name fragment hf]
      have hfound : splice name = pure fragment := hf
      simp only [spliceAll, deepestBranch, hfound, hreached, ih ho, pure_bind, bind_assoc,
        checkDepth_bind_checkDepth]

mutual

/-- Linking a selection is one check of the depth that its expansion reaches. -/
theorem linkAt_of_substitute (hs : splice.Measured) (depth : Nat) {selection : Selection String}
    {linked : LinkedSelection} (h : selection.substitute splice.meaning = some linked) :
    linkAt maxDepth splice depth selection = (do
      checkDepth maxDepth (linked.deepest depth)
      return (linked, linked.deepest depth)) := by
  match selection with
  | ⟨on, possible, fields, branches, spreads⟩ =>
      simp only [substitute, Option.bind_eq_bind, Option.bind_eq_some_iff] at h
      obtain ⟨fields', hf, branches', hb, spliced, hsp, hl⟩ := h
      cases hl
      simp only [linkAt, deepest, deepestBranch_append, linkFields_of_substitute hs _ hf,
        linkBranches_of_substitute hs _ hb, spliceAll_of_meaning hs _ hsp, bind_assoc, pure_bind,
        checkDepth_bind_checkDepth]

theorem linkFields_of_substitute (hs : splice.Measured) (depth : Nat)
    {fields : List (Field (Selection String))} {linked : List (Field LinkedSelection)}
    (h : substituteFields splice.meaning fields = some linked) :
    linkFields maxDepth splice depth fields = (do
      checkDepth maxDepth (deepestField depth linked)
      return (linked, deepestField depth linked)) := by
  match fields with
  | [] =>
      cases h
      rw [linkFields, deepestField, checkDepth_zero, pure_bind]
  | ⟨key, wrapping, core⟩ :: rest =>
      simp only [substituteFields, Option.bind_eq_bind, Option.bind_eq_some_iff] at h
      obtain ⟨core', hc, others, ho, hl⟩ := h
      cases hl
      simp only [linkFields, deepestField, linkCore_of_substitute hs _ hc,
        linkFields_of_substitute hs _ ho, bind_assoc, pure_bind, checkDepth_bind_checkDepth]

theorem linkCore_of_substitute (hs : splice.Measured) (depth : Nat)
    {core : OutputCore (Selection String)} {linked : OutputCore LinkedSelection}
    (h : substituteCore splice.meaning core = some linked) :
    linkCore maxDepth splice depth core = (do
      checkDepth maxDepth (deepestCore depth linked)
      return (linked, deepestCore depth linked)) := by
  match core with
  | .scalar _ | .enum _ | .typename =>
      cases h
      rw [linkCore, deepestCore, checkDepth_zero, pure_bind]
  | .selection nested =>
      simp only [substituteCore, Option.bind_eq_bind, Option.bind_eq_some_iff] at h
      obtain ⟨nested', hn, hl⟩ := h
      cases hl
      simp only [linkCore, deepestCore, linkAt_of_substitute hs _ hn, bind_assoc, pure_bind]

theorem linkBranches_of_substitute (hs : splice.Measured) (depth : Nat)
    {branches : List (Selection String)} {linked : List LinkedSelection}
    (h : substituteBranches splice.meaning branches = some linked) :
    linkBranches maxDepth splice depth branches = (do
      checkDepth maxDepth (deepestBranch depth linked)
      return (linked, deepestBranch depth linked)) := by
  match branches with
  | [] =>
      cases h
      rw [linkBranches, deepestBranch, checkDepth_zero, pure_bind]
  | branch :: rest =>
      simp only [substituteBranches, Option.bind_eq_bind, Option.bind_eq_some_iff] at h
      obtain ⟨branch', hb, others, ho, hl⟩ := h
      cases hl
      simp only [linkBranches, deepestBranch, linkAt_of_substitute hs _ hb,
        linkBranches_of_substitute hs _ ho, bind_assoc, pure_bind, checkDepth_bind_checkDepth]

end

theorem height_le_of_linkAt (hs : splice.Measured) {selection : Selection String}
    {linked : LinkedSelection} {height : Nat}
    (h : selection.linkAt maxDepth splice 1 = .ok (linked, height)) :
    height = linked.height ∧ linked.height ≤ maxDepth := by
  have hlinked : selection.substitute splice.meaning = some linked :=
    linkAt_ok (fun _ fragment hf => Splice.meaning_eq_some_iff.mpr ⟨fragment, hf, rfl⟩) h
  rw [linkAt_of_substitute hs 1 hlinked, deepest_one] at h
  simp only [bind_eq_ok, pure_eq_ok, Prod.mk.injEq, true_and, checkDepth_eq_ok] at h
  obtain ⟨_, hle, rfl⟩ := h
  exact ⟨rfl, hle⟩

end Selection
end QueryShape
