import Mathlib.Logic.Function.Iterate
import QueryShape.DocumentTyping
import QueryShape.Proofs.Cycles
import QueryShape.Proofs.Expansion
import QueryShape.Proofs.LinkedHeight

/-!
# The cap on heights

A document without unknown names and cycles is linked exactly if no expansion in it is higher than
the cap. What is linked can be flattened and typed under the same cap.
-/

namespace QueryShape

open Outcome

namespace Fragments

variable {declared waiting : Fragments} {linked : OrderedMap LinkedFragment} {done : List String}
  {maxDepth : Nat}

/-- Linked fragments are noted with their heights, none of which is above the cap. -/
def NotedWithin (maxDepth : Nat) (linked : OrderedMap LinkedFragment) : Prop :=
  ∀ name fragment, linked.find? name = some fragment →
    fragment.height = fragment.selection.height ∧ fragment.selection.height ≤ maxDepth

theorem NotedWithin.measured (h : NotedWithin maxDepth linked) :
    (declared.splice linked).Measured :=
  fun name fragment hf => (h name fragment (splice_eq_ok.mp hf)).1

theorem NotedWithin.insert (h : NotedWithin maxDepth linked) (name : String)
    {tree : LinkedSelection} (hle : tree.height ≤ maxDepth) :
    NotedWithin maxDepth (linked.insert name ⟨tree, tree.height⟩) := by
  intro other fragment hf
  rw [OrderedMap.find?_insert] at hf
  split at hf
  · cases hf
    exact ⟨rfl, hle⟩
  · exact h other fragment hf

/-- Once the fragments that a selection spreads are linked, linking it is one check of the height of
its expansion. -/
theorem Progress.exists_linkAt_eq (h : Progress declared done waiting linked) (maxDepth : Nat)
    (hs : (declared.splice linked).Measured) {selection : Selection String}
    (hrefs : ∀ name ∈ selection.references, name ∈ done) :
    ∃ tree, declared.Expands selection tree ∧
      selection.linkAt maxDepth (declared.splice linked) 1 = (do
        checkDepth maxDepth tree.height
        return (tree, tree.height)) := by
  obtain ⟨tree, htree⟩ : ∃ tree,
      selection.substitute (Splice.meaning (declared.splice linked)) = some tree := by
    refine Selection.exists_substitute fun name hn => ?_
    obtain ⟨fragment, hf⟩ := h.links name (hrefs name hn)
    exact ⟨fragment.selection,
      Splice.meaning_eq_some_iff.mpr ⟨fragment, splice_eq_ok.mpr hf, rfl⟩⟩
  refine ⟨tree, expands_of_expand (done.length + 1) ?_, ?_⟩
  · refine Selection.substitute_mono (fun name linked hl => ?_) htree
    obtain ⟨fragment, hf, rfl⟩ := Splice.meaning_eq_some_iff.mp hl
    exact h.meaning name fragment hf
  · rw [Selection.linkAt_of_substitute hs 1 htree, Selection.deepest_one]

theorem Progress.exists_swapRemove? (h : Progress declared done waiting linked)
    {order rest : List String} {name : String} (ho : declared.linkOrder = .ok order)
    (hsplit : order = done ++ name :: rest) :
    ∃ raw waiting', declared.find? name = some raw ∧
      waiting.swapRemove? name = some (raw, waiting') ∧
      ∀ reference ∈ raw.references, reference ∈ done := by
  obtain ⟨hname, hdone, hrefs⟩ := next_of_linkOrder ho hsplit
  obtain ⟨raw, hraw⟩ := OrderedMap.mem_keys_iff.mp hname
  rw [spreadBy_eq hraw] at hrefs
  have hwait : waiting.find? name = some raw := by rw [h.waits, if_neg hdone, hraw]
  cases hw : waiting.swapRemove? name with
  | none =>
      rw [OrderedMap.swapRemove?_eq_none_iff.mp hw] at hwait
      cases hwait
  | some taken =>
      obtain ⟨selection, waiting'⟩ := taken
      have hfound := (OrderedMap.swapRemove?_spec hw).1
      rw [hwait] at hfound
      cases hfound
      exact ⟨raw, waiting', hraw, rfl, hrefs⟩

/-- Linking the next fragment in the link order is one check of the height of its expansion. -/
theorem Progress.exists_linkNext_eq (h : Progress declared done waiting linked)
    (hnoted : NotedWithin maxDepth linked) {order rest : List String} {name : String}
    (ho : declared.linkOrder = .ok order) (hsplit : order = done ++ name :: rest) :
    ∃ raw tree waiting', declared.find? name = some raw ∧ declared.Expands raw tree ∧
      declared.linkNext maxDepth (waiting, linked) name = (do
        checkDepth maxDepth tree.height
        return (waiting', linked.insert name ⟨tree, tree.height⟩)) := by
  obtain ⟨raw, waiting', hraw, hw, hrefs⟩ := h.exists_swapRemove? ho hsplit
  obtain ⟨tree, htree, hlink⟩ := h.exists_linkAt_eq maxDepth hnoted.measured hrefs
  refine ⟨raw, tree, waiting', hraw, htree, ?_⟩
  simp only [linkNext, hw, hlink, bind_assoc, pure_bind]

theorem Progress.notedWithin_linkNext (h : Progress declared done waiting linked)
    (hnoted : NotedWithin maxDepth linked) {order rest : List String} {name : String}
    (ho : declared.linkOrder = .ok order) (hsplit : order = done ++ name :: rest)
    {next : Fragments × OrderedMap LinkedFragment}
    (hnext : declared.linkNext maxDepth (waiting, linked) name = .ok next) :
    NotedWithin maxDepth next.2 := by
  obtain ⟨raw, tree, _, hraw, htree, heq⟩ := h.exists_linkNext_eq hnoted ho hsplit
  rw [heq] at hnext
  simp only [bind_eq_ok, checkDepth_eq_ok, pure_eq_ok] at hnext
  obtain ⟨_, hle, rfl⟩ := hnext
  exact hnoted.insert name hle

/-- All fragments are linked with their heights, or one of them is higher than the cap. -/
theorem linkAll_heights {order : List String} (ho : declared.linkOrder = .ok order) :
    (∀ linked, declared.linkAll maxDepth order = .ok linked →
      (∃ waiting, Progress declared order waiting linked) ∧ NotedWithin maxDepth linked) ∧
      ∀ error, declared.linkAll maxDepth order = .error error →
        ∃ name raw tree, declared.find? name = some raw ∧ declared.Expands raw tree ∧
          maxDepth < tree.height := by
  have hloop := foldlM_of_step (declared.linkNext maxDepth) order (declared, ∅)
    (motive := fun done state =>
      Progress declared done state.1 state.2 ∧ NotedWithin maxDepth state.2)
    ⟨.start declared, fun _ _ hf => by cases hf⟩ ?_
  · unfold linkAll
    refine ⟨fun linked h => ?_, fun error h => ?_⟩
    · simp only [bind_eq_ok, Prod.exists, pure_eq_ok] at h
      obtain ⟨waiting, _, h, rfl⟩ := h
      obtain ⟨hp, hn⟩ := hloop.1 _ h
      exact ⟨⟨waiting, hp⟩, hn⟩
    · simp only [bind_eq_error, pure_ne_error, and_false, exists_false, or_false] at h
      obtain ⟨done, name, rest, ⟨waiting, linked⟩, hsplit, ⟨hp, hn⟩, h⟩ := hloop.2 error h
      obtain ⟨raw, tree, _, hraw, htree, heq⟩ := hp.exists_linkNext_eq hn ho hsplit
      rw [heq] at h
      simp only [bind_eq_error, checkDepth_eq_error, pure_ne_error, and_false, exists_false,
        or_false] at h
      exact ⟨name, raw, tree, hraw, htree, h.1⟩
  · rintro done name rest hsplit ⟨waiting, linked⟩ ⟨waiting', linked'⟩ ⟨hp, hn⟩ h
    exact ⟨hp.linkNext_ok h, hp.notedWithin_linkNext hn ho hsplit h⟩

theorem find?_linkAll {order : List String} (ho : declared.linkOrder = .ok order)
    (ha : declared.linkAll maxDepth order = .ok linked) {name : String}
    {fragment : LinkedFragment} :
    linked.find? name = some fragment ↔ ∃ raw, declared.find? name = some raw ∧
      declared.Expands raw fragment.selection ∧ fragment.height = fragment.selection.height := by
  obtain ⟨⟨waiting, hp⟩, hn⟩ := (linkAll_heights ho).1 linked ha
  have hnoted {name : String} {fragment : LinkedFragment} (hf : linked.find? name = some fragment) :
      ∃ raw, declared.find? name = some raw ∧
        declared.Expands raw fragment.selection ∧ fragment.height = fragment.selection.height := by
    obtain ⟨raw, hraw, hexpand⟩ := hp.expands name fragment hf
    exact ⟨raw, hraw, expands_of_expand _ hexpand, (hn name fragment hf).1⟩
  refine ⟨hnoted, fun ⟨raw, hraw, htree, hheight⟩ => ?_⟩
  have hmem := (LinkOrder.sorted_spec ho).1.mem_iff.mpr (OrderedMap.mem_keys_of_find? hraw)
  obtain ⟨⟨tree, height⟩, hf⟩ := hp.links name hmem
  obtain ⟨other, hother, htree', hheight'⟩ := hnoted hf
  rw [hraw] at hother
  cases hother
  obtain ⟨selection, height⟩ := fragment
  cases htree.unique htree'
  dsimp only at hheight hheight'
  rw [hf, hheight, hheight']

theorem height_le_of_linkAll {order : List String} (ho : declared.linkOrder = .ok order)
    (ha : declared.linkAll maxDepth order = .ok linked) {name : String} {raw : Selection String}
    (hraw : declared.find? name = some raw) {tree : LinkedSelection}
    (htree : declared.Expands raw tree) : tree.height ≤ maxDepth := by
  have hf : linked.find? name = some ⟨tree, tree.height⟩ :=
    (find?_linkAll ho ha).mpr ⟨raw, hraw, htree, rfl⟩
  exact (((linkAll_heights ho).1 linked ha).2 name _ hf).2

end Fragments

namespace Resolved

variable {resolved : Resolved} {maxDepth : Nat}

def selections (resolved : Resolved) : List (Selection String) :=
  resolved.operations.map Operation.selection ++ resolved.fragments.entries.map Prod.snd

/-- Every spread, wherever it stands, names a declared fragment. -/
def Complete (resolved : Resolved) : Prop :=
  ∀ selection ∈ resolved.selections, ∀ name ∈ selection.references, name ∈ resolved.fragments.keys

/-- No selection of the document has an expansion that is higher. -/
def NoHigherThan (resolved : Resolved) (maxDepth : Nat) : Prop :=
  ∀ selection ∈ resolved.selections, ∀ tree,
    resolved.fragments.Expands selection tree → tree.height ≤ maxDepth

theorem mem_selections_of_find? {name : String} {raw : Selection String}
    (h : resolved.fragments.find? name = some raw) : raw ∈ resolved.selections :=
  List.mem_append_right _ (List.mem_map_of_mem (OrderedMap.find?_eq_some_iff.mp h))

theorem Complete.known (hc : resolved.Complete) :
    LinkOrder.Known resolved.fragments.keys resolved.fragments.spreadBy := by
  intro name hn reference hr
  obtain ⟨raw, hraw⟩ := OrderedMap.mem_keys_iff.mp hn
  rw [Fragments.spreadBy_eq hraw] at hr
  exact hc raw (mem_selections_of_find? hraw) reference hr

theorem height_le_of_link {linked : List (Operation LinkedSelection)}
    (h : resolved.link maxDepth = .ok linked) :
    ∀ operation ∈ linked, operation.selection.height ≤ maxDepth := by
  unfold link at h
  simp only [bind_eq_ok] at h
  obtain ⟨order, ho, fragments, ha, h⟩ := h
  obtain ⟨_, hn⟩ := (Fragments.linkAll_heights ho).1 fragments ha
  intro operation hoperation
  obtain ⟨raw, _, hr⟩ := exists_of_mem_forall₂ (mapM_eq_ok h) hoperation
  simp only [bind_eq_ok, Prod.exists, pure_eq_ok] at hr
  obtain ⟨selection, height, hl, rfl⟩ := hr
  exact (Selection.height_le_of_linkAt hn.measured hl).2

theorem noHigherThan_of_link {linked : List (Operation LinkedSelection)}
    (h : resolved.link maxDepth = .ok linked) : resolved.NoHigherThan maxDepth := by
  intro selection hs tree htree
  rcases List.mem_append.mp hs with hs | hs
  · obtain ⟨operation, ho, rfl⟩ := List.mem_map.mp hs
    have hlinked := (linksTo_of_link h).flip
    obtain ⟨result, hr, hl⟩ := exists_of_mem_forall₂ hlinked ho
    rw [htree.unique hl.selection]
    exact height_le_of_link h result hr
  · obtain ⟨⟨name, raw⟩, he, rfl⟩ := List.mem_map.mp hs
    unfold link at h
    simp only [bind_eq_ok] at h
    obtain ⟨order, ho, fragments, ha, _⟩ := h
    exact Fragments.height_le_of_linkAll ho ha (OrderedMap.find?_eq_some_iff.mpr he) htree

theorem exists_higher_of_link_error (hc : resolved.Complete) (ha : resolved.fragments.Acyclic)
    {error : TypingError} (h : resolved.link maxDepth = .error error) :
    .tooDeep maxDepth = error ∧ ∃ selection ∈ resolved.selections, ∃ tree,
      resolved.fragments.Expands selection tree ∧ maxDepth < tree.height := by
  obtain ⟨order, ho⟩ := Fragments.exists_linkOrder_eq_ok hc.known ha
  unfold link at h
  simp only [ho, bind_eq_error, reduceCtorEq, Except.ok.injEq, exists_eq_left', false_or] at h
  rcases h with h | ⟨linked, hlinked, h⟩
  · obtain ⟨name, raw, tree, hraw, htree, hlt⟩ := (Fragments.linkAll_heights ho).2 error h
    exact ⟨(Fragments.linkAll_spec ho).2 error h, raw, mem_selections_of_find? hraw, tree, htree,
      hlt⟩
  · obtain ⟨⟨waiting, hp⟩, hn⟩ := (Fragments.linkAll_heights ho).1 linked hlinked
    obtain ⟨operation, hoperation, h⟩ := mapM_eq_error h
    have hs : operation.selection ∈ resolved.selections :=
      List.mem_append_left _ (List.mem_map_of_mem hoperation)
    obtain ⟨tree, htree, hlink⟩ := hp.exists_linkAt_eq maxDepth hn.measured fun name hname =>
      (LinkOrder.sorted_spec ho).1.mem_iff.mpr (hc operation.selection hs name hname)
    simp only [hlink, bind_eq_error, checkDepth_eq_error, pure_ne_error, and_false, exists_false,
      or_false] at h
    exact ⟨h.2, operation.selection, hs, tree, htree, h.1⟩

/-- Linking measures depth exactly. Where every spread names a declared fragment and no fragment
reaches itself, every operation and every fragment has an expansion, the document is linked if and
only if none of these is higher than the cap, and otherwise it is refused for the cap. -/
theorem link_ok_iff_noHigherThan (hc : resolved.Complete) (ha : resolved.fragments.Acyclic)
    (maxDepth : Nat) :
    (∀ selection ∈ resolved.selections, ∃ tree, resolved.fragments.Expands selection tree) ∧
      ((∃ linked, resolved.link maxDepth = .ok linked) ↔ resolved.NoHigherThan maxDepth) ∧
      (¬ resolved.NoHigherThan maxDepth → resolved.link maxDepth = .error (.tooDeep maxDepth)) := by
  obtain ⟨order, ho⟩ := Fragments.exists_linkOrder_eq_ok hc.known ha
  refine ⟨fun selection hs => Fragments.exists_expands ho (hc selection hs), ?_⟩
  cases h : resolved.link maxDepth with
  | ok linked =>
      have hwithin := noHigherThan_of_link h
      exact ⟨⟨fun _ => hwithin, fun _ => ⟨linked, rfl⟩⟩, fun hhigher => absurd hwithin hhigher⟩
  | error error =>
      obtain ⟨rfl, selection, hs, tree, htree, hlt⟩ := exists_higher_of_link_error hc ha h
      have hhigher : ¬ resolved.NoHigherThan maxDepth := fun hwithin =>
        Nat.not_le_of_lt hlt (hwithin selection hs tree htree)
      refine ⟨⟨fun ⟨_, hl⟩ => ?_, fun hwithin => absurd hwithin hhigher⟩, fun _ => rfl⟩
      cases hl

/-- The query of `friendsDocument` spreads a fragment that spreads another, and is five levels high:
it is linked under a cap of five and under no lower one. -/
theorem link_ok_iff_noHigherThan_friendsDocument :
    friendsDocument.Complete ∧ friendsDocument.fragments.Acyclic ∧
      friendsDocument.NoHigherThan 5 ∧ ¬ friendsDocument.NoHigherThan 4 := by
  have hc : friendsDocument.Complete := by
    unfold Complete
    decide
  have ho : friendsDocument.fragments.linkOrder = .ok ["Name", "Friends"] := by cbv
  have ha := Fragments.acyclic_of_linkOrder ho
  have hfive : friendsDocument.link 5 = .ok friendsLinked := by cbv
  have hfour : friendsDocument.link 4 = .error (.tooDeep 4) := by cbv
  refine ⟨hc, ha, ?_, fun hwithin => ?_⟩
  · exact (link_ok_iff_noHigherThan hc ha 5).2.1.mp ⟨friendsLinked, hfive⟩
  · obtain ⟨linked, h⟩ := (link_ok_iff_noHigherThan hc ha 4).2.1.mpr hwithin
    rw [hfour] at h
    cases h

end Resolved

/-! ### Typing what is linked -/

theorem height_iterate_flatten_le {maxDepth : Nat} {operations : List (Operation LinkedSelection)}
    (h : ∀ operation ∈ operations, operation.selection.height ≤ maxDepth) (times : Nat) :
    ∀ operation ∈ (List.map Operation.flatten)^[times] operations,
      operation.selection.height ≤ maxDepth := by
  induction times with
  | zero => exact h
  | succ times ih =>
      rw [Function.iterate_succ_apply']
      intro operation ho
      obtain ⟨previous, hp, rfl⟩ := List.mem_map.mp ho
      exact Nat.le_trans (Selection.height_flatten_le previous.selection) (ih previous hp)

/-- What is linked can be typed: however often its operations are flattened, typing them under the
cap under which they were linked succeeds. -/
theorem exists_signatures_of_link {resolved : Resolved} (options : Options)
    {linked : List (Operation LinkedSelection)} (h : resolved.link options.maxDepth = .ok linked)
    (times : Nat) :
    ∃ result, signatures options ((List.map Operation.flatten)^[times] linked) = .ok result := by
  have hheight := height_iterate_flatten_le (Resolved.height_le_of_link h) times
  exact exists_mapM_eq_ok fun operation ho => Operation.exists_signature (hheight operation ho)

theorem exists_signatures_of_link_friendsDocument :
    Resolved.friendsDocument.link 5 = .ok Resolved.friendsLinked ∧
      ∃ result, signatures { maxDepth := 5 }
        ((Resolved.friendsLinked.map Operation.flatten).map Operation.flatten) = .ok result := by
  have h : Resolved.friendsDocument.link 5 = .ok Resolved.friendsLinked := by cbv
  exact ⟨h, exists_signatures_of_link { maxDepth := 5 } h 2⟩

end QueryShape
