import Mathlib
import QueryShape.Proofs.DependencyOrder
import QueryShape.Proofs.Substitution

/-!
# Linking expands

The link order is a dependency order, so every fragment that is spread has been linked by then. The
result is the naive expansion.
-/

namespace QueryShape

open Outcome

namespace Fragments

theorem expand_succ {fragments : Fragments} {levels : Nat} {selection : Selection String}
    {linked : LinkedSelection} (h : fragments.expand levels selection = some linked) :
    fragments.expand (levels + 1) selection = some linked := by
  induction levels generalizing selection linked with
  | zero => exact Selection.substitute_mono (by simp) h
  | succ levels ih =>
      apply Selection.substitute_mono _ h
      intro name linked hl
      obtain ⟨fragment, hf, hl⟩ := Option.bind_eq_some_iff.mp hl
      exact Option.bind_eq_some_iff.mpr ⟨fragment, hf, ih hl⟩

theorem expand_mono {fragments : Fragments} {levels more : Nat} (hle : levels ≤ more)
    {selection : Selection String} {linked : LinkedSelection}
    (h : fragments.expand levels selection = some linked) :
    fragments.expand more selection = some linked := by
  induction hle with
  | refl => exact h
  | step _ ih => exact expand_succ ih

theorem splice_eq_ok {declared : Fragments} {linked : OrderedMap LinkedFragment} {name : String}
    {fragment : LinkedFragment} :
    declared.splice linked name = .ok fragment ↔ linked.find? name = some fragment := by
  unfold splice
  cases linked.find? name with
  | some found => simp
  | none =>
      dsimp only
      split <;> simp

theorem splice_eq_error {declared : Fragments} {linked : OrderedMap LinkedFragment} {name : String}
    {error : TypingError} (h : declared.splice linked name = .error error) :
    linked.find? name = none ∧ (name ∈ declared.keys ∨ .unknownFragment name = error) := by
  unfold splice at h
  cases hf : linked.find? name with
  | some found => simp [hf] at h
  | none =>
      simp only [hf] at h
      split at h
      · next hc => exact ⟨rfl, .inl (by simpa [OrderedMap.contains] using hc)⟩
      · exact ⟨rfl, .inr (by simpa using h)⟩

theorem spreadBy_eq {fragments : Fragments} {name : String} {selection : Selection String}
    (h : fragments.find? name = some selection) :
    fragments.spreadBy name = selection.references := by
  simp [spreadBy, h]

/-! ### Linking all fragments -/

/-- How far linking has come when the fragments `done` are linked: just these no longer wait, each
of them can be spliced, and what is spliced for a name is the expansion of its fragment. -/
structure Progress (declared : Fragments) (done : List String) (waiting : Fragments)
    (linked : OrderedMap LinkedFragment) : Prop where
  waits : ∀ name, waiting.find? name = if name ∈ done then none else declared.find? name
  links : ∀ name ∈ done, ∃ fragment, linked.find? name = some fragment
  expands : ∀ name fragment, linked.find? name = some fragment →
    ∃ raw, declared.find? name = some raw ∧
      declared.expand done.length raw = some fragment.selection

theorem Progress.start (declared : Fragments) : Progress declared [] declared ∅ where
  waits := by simp
  links := by simp
  expands name fragment h := by cases h

section

variable {declared waiting : Fragments} {linked : OrderedMap LinkedFragment} {done : List String}
  {maxDepth : Nat} {name : String}

/-- What linking puts for a spread is what expanding puts for it, one level further up. -/
theorem Progress.meaning (h : Progress declared done waiting linked) (name : String)
    (fragment : LinkedFragment) (hs : declared.splice linked name = .ok fragment) :
    (declared.find? name).bind (declared.expand done.length) = some fragment.selection := by
  obtain ⟨raw, hr, hl⟩ := h.expands name fragment (splice_eq_ok.mp hs)
  exact Option.bind_eq_some_iff.mpr ⟨raw, hr, hl⟩

theorem Progress.linkNext_ok (h : Progress declared done waiting linked)
    {waiting' : Fragments} {linked' : OrderedMap LinkedFragment}
    (hn : declared.linkNext maxDepth (waiting, linked) name = .ok (waiting', linked')) :
    Progress declared (done ++ [name]) waiting' linked' := by
  unfold linkNext at hn
  cases hw : waiting.swapRemove? name with
  | none => simp [hw] at hn
  | some entry =>
      obtain ⟨raw, rest⟩ := entry
      simp only [hw, bind_eq_ok, Prod.exists, pure_eq_ok, Prod.mk.injEq] at hn
      obtain ⟨selection, height, hlink, rfl, rfl⟩ := hn
      obtain ⟨hraw, hrest⟩ := OrderedMap.swapRemove?_spec hw
      rw [h.waits] at hraw
      refine ⟨fun other => ?_, fun other ho => ?_, fun other fragment hf => ?_⟩
      · rw [hrest, h.waits]
        by_cases he : other = name <;> simp [he]
      · rw [OrderedMap.find?_insert]
        by_cases he : other = name
        · simp [he]
        · rw [if_neg he]
          exact h.links other (by simpa [he] using ho)
      · rw [List.length_append, List.length_singleton]
        rw [OrderedMap.find?_insert] at hf
        by_cases he : other = name
        · rw [if_pos he] at hf
          cases hf
          refine ⟨raw, ?_, Selection.linkAt_ok h.meaning hlink⟩
          split at hraw
          · cases hraw
          · rw [he, hraw]
        · rw [if_neg he] at hf
          obtain ⟨other, ho, hl⟩ := h.expands other fragment hf
          exact ⟨other, ho, expand_succ hl⟩

theorem Progress.linkNext_error (h : Progress declared done waiting linked)
    (hdone : name ∉ done) (hname : name ∈ declared.keys)
    (hrefs : ∀ reference ∈ declared.spreadBy name, reference ∈ done) {error : TypingError}
    (hn : declared.linkNext maxDepth (waiting, linked) name = .error error) :
    .tooDeep maxDepth = error := by
  obtain ⟨raw, hraw⟩ := OrderedMap.mem_keys_iff.mp hname
  have hwait : waiting.find? name = some raw := by rw [h.waits, if_neg hdone, hraw]
  unfold linkNext at hn
  cases hw : waiting.swapRemove? name with
  | none => rw [OrderedMap.swapRemove?_eq_none_iff.mp hw] at hwait; cases hwait
  | some entry =>
      obtain ⟨selection, rest⟩ := entry
      have hsel := (OrderedMap.swapRemove?_spec hw).1
      rw [hwait] at hsel
      cases hsel
      simp only [hw, bind_eq_error, pure_ne_error, and_false, exists_false, or_false] at hn
      rcases Selection.linkAt_error hn with hd | ⟨reference, hr, hs⟩
      · exact hd
      · obtain ⟨fragment, hf⟩ := h.links reference (hrefs reference (by rwa [spreadBy_eq hraw]))
        rw [splice_eq_ok.mpr hf] at hs
        cases hs

end

theorem next_of_linkOrder {declared : Fragments} {order done rest : List String} {name : String}
    (ho : declared.linkOrder = .ok order) (hsplit : order = done ++ name :: rest) :
    name ∈ declared.keys ∧ name ∉ done ∧
      ∀ reference ∈ declared.spreadBy name, reference ∈ done := by
  obtain ⟨hperm, _, hrefs⟩ := LinkOrder.sorted_spec ho
  have hnodup : (done ++ name :: rest).Nodup := hsplit ▸ hperm.nodup_iff.mpr declared.nodup
  refine ⟨hperm.mem_iff.mp (by simp [hsplit]), fun hdone => ?_, hrefs done name rest hsplit⟩
  exact (List.nodup_append.mp hnodup).2.2 name hdone name List.mem_cons_self rfl

theorem linkAll_spec {declared : Fragments} {maxDepth : Nat} {order : List String}
    (ho : declared.linkOrder = .ok order) :
    (∀ linked, declared.linkAll maxDepth order = .ok linked →
      ∃ waiting, Progress declared order waiting linked) ∧
      ∀ error, declared.linkAll maxDepth order = .error error → .tooDeep maxDepth = error := by
  obtain ⟨hlinked, hrefused⟩ := foldlM_of_step (declared.linkNext maxDepth) order (declared, ∅)
    (motive := fun done state => Progress declared done state.1 state.2) (.start declared)
    fun _ _ _ _ _ _ hp hn => hp.linkNext_ok hn
  unfold linkAll
  refine ⟨fun linked h => ?_, fun error h => ?_⟩
  · simp only [bind_eq_ok, Prod.exists, pure_eq_ok] at h
    obtain ⟨waiting, _, h, rfl⟩ := h
    exact ⟨waiting, hlinked _ h⟩
  · simp only [bind_eq_error, pure_ne_error, and_false, exists_false, or_false] at h
    obtain ⟨done, name, rest, state, hsplit, hp, hn⟩ := hrefused error h
    obtain ⟨hname, hdone, hrefs⟩ := next_of_linkOrder ho hsplit
    exact hp.linkNext_error hdone hname hrefs hn

/-- The naive expansion of a selection: what expanding comes to as soon as enough levels are
allowed. -/
def Expands (fragments : Fragments) (selection : Selection String) (linked : LinkedSelection) :
    Prop :=
  ∃ levels, ∀ more, levels ≤ more → fragments.expand more selection = some linked

end Fragments

namespace Resolved

/-- What linking does to one operation. -/
structure LinksTo (fragments : Fragments) (operation : Operation (Selection String))
    (linked : Operation LinkedSelection) : Prop where
  kind : linked.kind = operation.kind
  name? : linked.name? = operation.name?
  vars : linked.vars = operation.vars
  selection : fragments.Expands operation.selection linked.selection

theorem linksTo_of_link {resolved : Resolved} {maxDepth : Nat}
    {linked : List (Operation LinkedSelection)} (h : resolved.link maxDepth = .ok linked) :
    List.Forall₂ (LinksTo resolved.fragments) resolved.operations linked := by
  unfold link at h
  simp only [bind_eq_ok] at h
  obtain ⟨order, ho, fragments, ha, h⟩ := h
  obtain ⟨waiting, hp⟩ := (Fragments.linkAll_spec ho).1 fragments ha
  apply (mapM_eq_ok h).imp
  intro operation result hr
  simp only [bind_eq_ok, Prod.exists, pure_eq_ok] at hr
  obtain ⟨selection, _, hl, rfl⟩ := hr
  refine ⟨rfl, rfl, rfl, order.length + 1, fun more hle => ?_⟩
  exact Fragments.expand_mono hle (Selection.linkAt_ok hp.meaning hl)

/-- Linking fails for an unknown name, a cycle, or the cap, and never because a fragment that is
declared is missing on the way. -/
theorem link_error {resolved : Resolved} {maxDepth : Nat} {error : TypingError}
    (h : resolved.link maxDepth = .error error) :
    (∃ name, .unknownFragment name = error) ∨ (∃ cyclic, .cyclicFragments cyclic = error) ∨
      .tooDeep maxDepth = error := by
  unfold link at h
  simp only [bind_eq_error] at h
  rcases h with h | ⟨order, ho, h | ⟨linked, ha, h⟩⟩
  · exact (LinkOrder.sorted_error h).imp_right .inl
  · exact .inr (.inr ((Fragments.linkAll_spec ho).2 error h))
  · obtain ⟨operation, _, h⟩ := mapM_eq_error h
    simp only [bind_eq_error, pure_ne_error, and_false, exists_false, or_false] at h
    rcases Selection.linkAt_error h with hd | ⟨name, _, hs⟩
    · exact .inr (.inr hd)
    · obtain ⟨hmissing, hk | hu⟩ := Fragments.splice_eq_error hs
      · obtain ⟨waiting, hp⟩ := (Fragments.linkAll_spec ho).1 linked ha
        have hname := (LinkOrder.sorted_spec ho).1.mem_iff.mpr hk
        obtain ⟨fragment, hf⟩ := hp.links name hname
        rw [hmissing] at hf
        cases hf
      · exact .inl ⟨name, hu⟩

/-- Linking is naive expansion: an operation keeps its kind, name and variables, and its selection
is what comes of putting, in place of each spread, the expansion of the fragment declared under that
name. That a fragment is missing while it is linked or spread cannot happen, whatever the document
and the cap. -/
theorem link_expands (resolved : Resolved) (maxDepth : Nat) :
    (∀ linked, resolved.link maxDepth = .ok linked →
      List.Forall₂ (LinksTo resolved.fragments) resolved.operations linked) ∧
      ∀ cause, resolved.link maxDepth ≠ .error (.unlinkedFragment cause) := by
  refine ⟨fun linked h => linksTo_of_link h, fun cause h => ?_⟩
  rcases link_error h with ⟨_, h⟩ | ⟨_, h⟩ | h <;> cases h

def friendsDocument : Resolved where
  operations :=
    [⟨.query, some "Hero", ⟨"Query", ["Query"],
      [⟨"hero", [.notNull], .selection ⟨"Droid", ["Droid"], [], [], ["Friends", "Name"]⟩⟩],
      [], []⟩, []⟩]
  fragments := .ofList
    [("Friends", ⟨"Droid", ["Droid"],
      [⟨"friends", [.list], .selection ⟨"Droid", ["Droid"], [], [], ["Name"]⟩⟩], [], []⟩),
    ("Name", ⟨"Droid", ["Droid"], [⟨"name", [], .scalar "String"⟩], [], []⟩)]

def friendsLinked : List (Operation LinkedSelection) :=
  let name : LinkedSelection := ⟨"Droid", ["Droid"], [⟨"name", [], .scalar "String"⟩], [], []⟩
  let friends : LinkedSelection := ⟨"Droid", ["Droid"],
    [⟨"friends", [.list], .selection ⟨"Droid", ["Droid"], [], [name], []⟩⟩], [], []⟩
  [⟨.query, some "Hero", ⟨"Query", ["Query"],
    [⟨"hero", [.notNull], .selection ⟨"Droid", ["Droid"], [], [friends, name], []⟩⟩], [], []⟩, []⟩]

theorem link_expands_friendsDocument :
    friendsDocument.link 5 = .ok friendsLinked ∧
      List.Forall₂ (LinksTo friendsDocument.fragments) friendsDocument.operations
        friendsLinked := by
  -- The equations of core functions by which runs are evaluated here and in the modules to follow
  -- stand all over the library, so it is imported as a whole.
  have h : friendsDocument.link 5 = .ok friendsLinked := by cbv
  exact ⟨h, (link_expands friendsDocument 5).1 friendsLinked h⟩

end Resolved
end QueryShape
