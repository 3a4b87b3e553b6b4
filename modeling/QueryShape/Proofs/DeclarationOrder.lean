import QueryShape.Proofs.HeightCap

/-!
# The order of declarations

Under any order of declaration a fragment is linked to the same expansion. The order decides only
which of several causes of one sort a refusal names first.
-/

namespace QueryShape

open Outcome

/-- Causes of one sort that can take each other's place when fragments are declared in another
order. -/
inductive TypingError.Resembles : TypingError → TypingError → Prop where
  | same (error : TypingError) : Resembles error error
  | unknown (name name' : String) : Resembles (.unknownFragment name) (.unknownFragment name')
  | cyclic {names names' : List String} (h : names.Perm names') :
      Resembles (.cyclicFragments names) (.cyclicFragments names')

namespace Outcome

variable {α β γ δ : Type}

/-- Two refusals for causes that resemble each other, or two related results. -/
inductive Resemble (R : α → β → Prop) : Typing α → Typing β → Prop where
  | refused {error error' : TypingError} (h : error.Resembles error') :
      Resemble R (.error error) (.error error')
  | done {a : α} {b : β} (h : R a b) : Resemble R (.ok a) (.ok b)

theorem Resemble.refl (x : Typing α) : Resemble Eq x x := by
  cases x with
  | error error => exact .refused (.same error)
  | ok a => exact .done rfl

theorem Resemble.bind {R : α → β → Prop} {S : γ → δ → Prop} {x : Typing α} {y : Typing β}
    {f : α → Typing γ} {g : β → Typing δ} (h : Resemble R x y)
    (hfg : ∀ a b, x = .ok a → y = .ok b → R a b → Resemble S (f a) (g b)) :
    Resemble S (x >>= f) (y >>= g) := by
  cases h with
  | refused h => exact .refused h
  | done h => exact hfg _ _ rfl rfl h

end Outcome

namespace OrderedMap

variable {α : Type}

def reverse (map : OrderedMap α) : OrderedMap α :=
  ⟨map.entries.reverse, by
    rw [List.map_reverse]
    exact List.nodup_reverse.mpr map.nodup⟩

theorem find?_eq_of_perm {map map' : OrderedMap α} (h : map.entries.Perm map'.entries)
    (key : String) : map.find? key = map'.find? key := by
  refine Option.ext fun value => ?_
  rw [find?_eq_some_iff, find?_eq_some_iff, h.mem_iff]

end OrderedMap

/-! ### The link order -/

namespace LinkOrder

variable {names names' : List String} {spreadBy : String → List String}

theorem Known.of_perm (hknown : Known names spreadBy) (h : names.Perm names') :
    Known names' spreadBy := fun name hn reference hr =>
  h.mem_iff.mp (hknown name (h.mem_iff.mpr hn) reference hr)

/-- The search for a link order finds unknown names under any order of the declarations or under
none, and so it does cycles, always with the same fragments on them. -/
theorem resemble_sorted (h : names.Perm names') (hnodup : names.Nodup)
    (spreadBy : String → List String) :
    Resemble (fun _ _ => True) (sorted names spreadBy) (sorted names' spreadBy) := by
  have hverdict := verdict_sorted names spreadBy
  have hverdict' := verdict_sorted names' spreadBy
  generalize sorted names spreadBy = outcome at hverdict ⊢
  generalize sorted names' spreadBy = outcome' at hverdict' ⊢
  cases hverdict with
  | unknown hu hs hn =>
      cases hverdict' with
      | unknown _ _ _ => exact .refused (.unknown _ _)
      | cyclic hknown' _ _ _ => exact absurd (hknown'.of_perm h.symm _ hu _ hs) hn
      | ordered hknown' _ => exact absurd (hknown'.of_perm h.symm _ hu _ hs) hn
  | cyclic hknown hne hsub hmem =>
      cases hverdict' with
      | unknown hu' hs' hn' => exact absurd (hknown.of_perm h _ hu' _ hs') hn'
      | cyclic _ _ hsub' hmem' =>
          refine .refused (.cyclic ?_)
          rw [List.perm_ext_iff_of_nodup (hsub.nodup hnodup) (hsub'.nodup (h.nodup_iff.mp hnodup))]
          intro name
          rw [hmem, hmem', h.mem_iff]
      | ordered _ hacyclic' =>
          obtain ⟨name, hn, hr⟩ := exists_reaches hne hmem
          exact absurd hr (hacyclic' name (h.mem_iff.mp hn))
  | ordered hknown hacyclic =>
      cases hverdict' with
      | unknown hu' hs' hn' => exact absurd (hknown.of_perm h _ hu' _ hs') hn'
      | cyclic _ hne' _ hmem' =>
          obtain ⟨name, hn, hr⟩ := exists_reaches hne' hmem'
          exact absurd hr (hacyclic name (h.mem_iff.mpr hn))
      | ordered _ _ => exact .done trivial

end LinkOrder

/-! ### Linking -/

namespace Fragments

variable {declared declared' : Fragments} {maxDepth : Nat}

theorem resemble_linkOrder (h : declared.entries.Perm declared'.entries) :
    Resemble (fun _ _ => True) declared.linkOrder declared'.linkOrder := by
  have hspread : declared.spreadBy = declared'.spreadBy := by
    funext name
    rw [spreadBy, spreadBy, OrderedMap.find?_eq_of_perm h]
  unfold linkOrder
  rw [hspread]
  exact LinkOrder.resemble_sorted (h.map Prod.fst) declared.nodup _

theorem expand_eq_of_perm (h : declared.entries.Perm declared'.entries) (levels : Nat) :
    declared.expand levels = declared'.expand levels := by
  induction levels with
  | zero =>
      funext selection
      rw [expand, expand]
  | succ levels ih =>
      funext selection
      simp only [expand, ih, OrderedMap.find?_eq_of_perm h]

theorem expands_iff_of_perm (h : declared.entries.Perm declared'.entries)
    {selection : Selection String} {tree : LinkedSelection} :
    declared.Expands selection tree ↔ declared'.Expands selection tree := by
  simp only [Expands, expand_eq_of_perm h]

theorem splice_eq_of_perm (h : declared.entries.Perm declared'.entries)
    {linked linked' : OrderedMap LinkedFragment} (hlinked : linked.find? = linked'.find?) :
    declared.splice linked = declared'.splice linked' := by
  have hcontains (name : String) : declared.contains name = declared'.contains name := by
    rw [OrderedMap.contains, OrderedMap.contains, Bool.eq_iff_iff, List.contains_iff_mem,
      List.contains_iff_mem]
    exact (h.map Prod.fst).mem_iff
  funext name
  rw [splice, splice, hlinked, hcontains]

theorem exists_linkAll_eq_ok_of_perm (h : declared.entries.Perm declared'.entries)
    {order order' : List String} (ho : declared.linkOrder = .ok order)
    (ho' : declared'.linkOrder = .ok order') {linked : OrderedMap LinkedFragment}
    (ha : declared.linkAll maxDepth order = .ok linked) :
    ∃ linked', declared'.linkAll maxDepth order' = .ok linked' := by
  cases ha' : declared'.linkAll maxDepth order' with
  | ok linked' => exact ⟨linked', rfl⟩
  | error error =>
      obtain ⟨name, raw, tree, hraw, htree, hlt⟩ := (linkAll_heights ho').2 error ha'
      rw [← OrderedMap.find?_eq_of_perm h] at hraw
      have hle := height_le_of_linkAll ho ha hraw ((expands_iff_of_perm h).mpr htree)
      omega

theorem resemble_linkAll (h : declared.entries.Perm declared'.entries) {order order' : List String}
    (ho : declared.linkOrder = .ok order) (ho' : declared'.linkOrder = .ok order') :
    Resemble (fun linked linked' => linked.find? = linked'.find?)
      (declared.linkAll maxDepth order) (declared'.linkAll maxDepth order') := by
  cases ha : declared.linkAll maxDepth order with
  | ok linked =>
      obtain ⟨linked', ha'⟩ := exists_linkAll_eq_ok_of_perm h ho ho' ha
      rw [ha']
      refine .done (funext fun name => Option.ext fun fragment => ?_)
      rw [find?_linkAll ho ha, find?_linkAll ho' ha']
      simp only [OrderedMap.find?_eq_of_perm h, expands_iff_of_perm h]
  | error error =>
      cases ha' : declared'.linkAll maxDepth order' with
      | ok linked' =>
          obtain ⟨linked, hl⟩ := exists_linkAll_eq_ok_of_perm h.symm ho' ho ha'
          rw [ha] at hl
          cases hl
      | error error' =>
          cases (linkAll_spec ho).2 error ha
          cases (linkAll_spec ho').2 error' ha'
          exact .refused (.same _)

end Fragments

namespace Resolved

/-- Linking does not depend on the order in which fragments are declared. With the same fragments in
another order, the same comes of a document, or it is refused again: for an unknown name, for cycles
of the same fragments, or for the same cap. -/
theorem resemble_link_of_perm (operations : List (Operation (Selection String)))
    {fragments fragments' : Fragments} (h : fragments.entries.Perm fragments'.entries)
    (maxDepth : Nat) :
    Resemble Eq (link ⟨operations, fragments⟩ maxDepth)
      (link ⟨operations, fragments'⟩ maxDepth) := by
  unfold link
  refine (Fragments.resemble_linkOrder h).bind fun order order' ho ho' _ => ?_
  refine (Fragments.resemble_linkAll h ho ho').bind fun linked linked' _ _ hlinked => ?_
  rw [Fragments.splice_eq_of_perm h hlinked]
  exact .refl _

theorem resemble_link_of_perm_friendsDocument :
    friendsDocument.fragments.entries.Perm friendsDocument.fragments.reverse.entries ∧
      link ⟨friendsDocument.operations, friendsDocument.fragments.reverse⟩ 5 =
        .ok friendsLinked := by
  have hperm : friendsDocument.fragments.entries.Perm friendsDocument.fragments.reverse.entries :=
    (List.reverse_perm _).symm
  have h : link ⟨friendsDocument.operations, friendsDocument.fragments⟩ 5 = .ok friendsLinked := by
    cbv
  have hresemble := resemble_link_of_perm friendsDocument.operations hperm 5
  rw [h] at hresemble
  generalize link ⟨friendsDocument.operations, friendsDocument.fragments.reverse⟩ 5 = outcome
    at hresemble ⊢
  cases hresemble with
  | done he => exact ⟨hperm, congrArg Except.ok he.symm⟩

end Resolved
end QueryShape
