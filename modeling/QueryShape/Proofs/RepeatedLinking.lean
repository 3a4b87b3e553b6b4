import QueryShape.Proofs.LinkedParts
import QueryShape.Proofs.RepeatedItems

/-!
# Linking repeated parts

A repeated part of a fragment is repeated wherever the fragment is spread. The order of linking and
the depths that are reached stay the same, so linking fails with the same error or gives selections
with repeated parts.
-/

namespace QueryShape

open Outcome

def SameDepth {α β : Type} (R : α → β → Prop) (reached : α × Nat) (reached' : β × Nat) : Prop :=
  R reached.1 reached'.1 ∧ reached.2 = reached'.2

theorem agree_together {α β γ δ : Type} {S : γ → δ → Prop} {f : α → Typing (γ × Nat)}
    {g : β → Typing (δ × Nat)} {xs : List α} {ys : List β}
    (h : RepeatsUpTo (fun x y => Agree (SameDepth S) (f x) (g y)) xs ys) :
    Agree (SameDepth (RepeatsUpTo S)) (together <$> xs.mapM f) (together <$> ys.mapM g) := by
  rw [map_eq_pure_bind, map_eq_pure_bind]
  refine (Agree.mapM_repeats h).bind fun cs ds hrep => .done ⟨?_, ?_⟩
  · exact hrep.map fun _ _ hcd => hcd.1
  · exact (hrep.map_repeats fun c _ d hcd => hcd.2).foldr_max_eq.symm

structure LinkedFragment.Echoes (fragment fragment' : LinkedFragment) : Prop where
  selection : fragment.selection.Echoes fragment'.selection
  height : fragment.height = fragment'.height

namespace Selection

variable {maxDepth : Nat} {splice splice' : Splice}

theorem agree_spliceAll (hs : ∀ name, Agree LinkedFragment.Echoes (splice name) (splice' name))
    (depth : Nat) {names names' : List String} (h : Repeats names names') :
    Agree (SameDepth (RepeatsUpTo Echoes)) (spliceAll maxDepth splice depth names)
      (spliceAll maxDepth splice' depth names') := by
  rw [spliceAll_eq_together, spliceAll_eq_together]
  refine agree_together (.of_repeats (fun name => ?_) h)
  apply (hs name).bind
  intro fragment fragment' hf
  rw [hf.height]
  exact .bind_same _ fun _ => .done ⟨hf.selection, rfl⟩

theorem agree_linkField {depth : Nat} {field field' : Field (Selection String)}
    (h : field.Agrees (fun nested nested' => Agree (SameDepth Echoes)
      (nested.linkAt maxDepth splice depth) (nested'.linkAt maxDepth splice' depth)) field') :
    Agree (SameDepth (Field.Agrees Echoes)) (linkField maxDepth splice depth field)
      (linkField maxDepth splice' depth field') := by
  obtain ⟨key, wrapping, hc⟩ := h
  cases hc with
  | scalar name => exact .done ⟨⟨key, wrapping, .scalar name⟩, rfl⟩
  | enum values => exact .done ⟨⟨key, wrapping, .enum values⟩, rfl⟩
  | typename => exact .done ⟨⟨key, wrapping, .typename⟩, rfl⟩
  | selection h =>
      simp only [linkField, linkCore, bind_assoc, pure_bind]
      apply h.bind
      intro reached reached' hr
      exact .done ⟨⟨key, wrapping, .selection hr.1⟩, hr.2⟩

theorem agree_linkAt (hs : ∀ name, Agree LinkedFragment.Echoes (splice name) (splice' name))
    {selection selection' : Selection String} (h : selection.Echoes selection') (depth : Nat) :
    Agree (SameDepth Echoes) (selection.linkAt maxDepth splice depth)
      (selection'.linkAt maxDepth splice' depth) := by
  induction selection using Selection.induction generalizing selection' depth with
  | step selection ihNested ihBranch =>
      obtain ⟨hon, hpossible, hfields, hbranches, hspreads⟩ := echoes_iff.mp h
      have hlinked : Agree (SameDepth (RepeatsUpTo (Field.Agrees Echoes)))
          (linkFields maxDepth splice (depth + 1) selection.fields)
          (linkFields maxDepth splice' (depth + 1) selection'.fields) := by
        rw [linkFields_eq_together, linkFields_eq_together]
        refine agree_together (hfields.imp fun field hf _ hagrees => agree_linkField ?_)
        exact hagrees.imp fun nested _ hn hecho => ihNested field hf nested hn hecho (depth + 1)
      have hbranched : Agree (SameDepth (RepeatsUpTo Echoes))
          (linkBranches maxDepth splice (depth + 1) selection.branches)
          (linkBranches maxDepth splice' (depth + 1) selection'.branches) := by
        rw [linkBranches_eq_together, linkBranches_eq_together]
        exact agree_together (hbranches.imp fun branch hb _ hecho =>
          ihBranch branch hb hecho (depth + 1))
      rw [linkAt_eq, linkAt_eq]
      refine .bind_same _ fun _ => ?_
      apply hlinked.bind
      intro linked linked' hf
      apply hbranched.bind
      intro branched branched' hb
      apply (agree_spliceAll hs depth hspreads).bind
      intro spliced spliced' hsp
      refine .done ⟨?_, ?_⟩
      · exact echoes_iff.mpr ⟨hon, hpossible, hf.1, hb.1.append hsp.1, .refl []⟩
      · simp only [hf.2, hb.2, hsp.2]

/-! ### The link order -/

theorem Echoes.repeats_references {ρ : Type} {selection selection' : Selection ρ}
    (h : selection.Echoes selection') : Repeats selection.references selection'.references := by
  induction selection using Selection.induction generalizing selection' with
  | step selection ihNested ihBranch =>
      obtain ⟨_, _, hfields, hbranches, hspreads⟩ := echoes_iff.mp h
      rw [references_eq, references_eq]
      refine Repeats.append ?_ (Repeats.append ?_ hspreads)
      · refine hfields.repeats_flatMap ?_
        rintro field hf _ ⟨key, wrapping, hc⟩
        cases hc with
        | scalar name => exact .refl []
        | enum values => exact .refl []
        | typename => exact .refl []
        | selection hecho => exact ihNested _ hf _ rfl hecho
      · exact hbranches.repeats_flatMap fun branch hb _ hecho => ihBranch branch hb hecho

end Selection

/-- Spreading a fragment more often changes neither what it depends on nor the first unknown
name. -/
theorem LinkOrder.sorted_eq_of_repeats (names : List String)
    {spreadBy spreadBy' : String → List String}
    (h : ∀ name, Repeats (spreadBy name) (spreadBy' name)) :
    sorted names spreadBy = sorted names spreadBy' := by
  have hunknown : unknown? names spreadBy' = unknown? names spreadBy := by
    have hnames : RepeatsUpTo Eq names names := .of_repeats (fun _ => rfl) (.refl names)
    have hjoined : Repeats (names.flatMap spreadBy) (names.flatMap spreadBy') := by
      refine hnames.repeats_flatMap ?_
      rintro name _ _ rfl
      exact h name
    exact hjoined.find?_eq _
  have hcontains (name reference : String) :
      (spreadBy' name).contains reference = (spreadBy name).contains reference := by
    rw [Bool.eq_iff_iff, List.contains_iff_mem, List.contains_iff_mem, (h name).mem_iff]
  have hspreads : spreads names spreadBy' = spreads names spreadBy := by
    unfold spreads
    simp only [hcontains]
  unfold sorted
  rw [hunknown, hspreads]

namespace Fragments

variable {declared declared' : Fragments} {maxDepth : Nat}

theorem Echoes.repeats_spreadBy (h : declared.Echoes declared') (name : String) :
    Repeats (declared.spreadBy name) (declared'.spreadBy name) := by
  have hfound := h.find? name
  unfold spreadBy
  generalize declared.find? name = found, declared'.find? name = found' at hfound ⊢
  cases hfound with
  | none => exact .refl []
  | some hs => exact hs.repeats_references

theorem Echoes.linkOrder_eq (h : declared.Echoes declared') :
    declared.linkOrder = declared'.linkOrder := by
  unfold linkOrder
  rw [← h.keys]
  exact LinkOrder.sorted_eq_of_repeats declared.keys h.repeats_spreadBy

/-! ### Linking all fragments -/

/-- Fragments linked so far, and those that wait, but for repetitions in them. -/
structure Alike (state state' : Fragments × OrderedMap LinkedFragment) : Prop where
  waiting : ∀ name, Option.Rel Selection.Echoes (state.1.find? name) (state'.1.find? name)
  linked : ∀ name, Option.Rel LinkedFragment.Echoes (state.2.find? name) (state'.2.find? name)

theorem Echoes.agree_splice (h : declared.Echoes declared')
    {linked linked' : OrderedMap LinkedFragment}
    (hl : ∀ name, Option.Rel LinkedFragment.Echoes (linked.find? name) (linked'.find? name))
    (name : String) :
    Agree LinkedFragment.Echoes (declared.splice linked name) (declared'.splice linked' name) := by
  have hfound := hl name
  unfold splice OrderedMap.contains
  rw [← h.keys]
  generalize linked.find? name = found, linked'.find? name = found' at hfound ⊢
  cases hfound with
  | some hf => exact .done hf
  | none =>
      dsimp only
      split <;> exact agree_throw _

/-- What is taken out for one name echoes, and so does what is left. -/
theorem rel_swapRemove? {waiting waiting' : Fragments}
    (h : ∀ name, Option.Rel Selection.Echoes (waiting.find? name) (waiting'.find? name))
    (name : String) :
    Option.Rel (fun taken taken' => taken.1.Echoes taken'.1 ∧
        ∀ other, Option.Rel Selection.Echoes (taken.2.find? other) (taken'.2.find? other))
      (waiting.swapRemove? name) (waiting'.swapRemove? name) := by
  have hname := h name
  cases hr : waiting.swapRemove? name with
  | none =>
      rw [OrderedMap.swapRemove?_eq_none_iff.mp hr] at hname
      cases hr' : waiting'.swapRemove? name with
      | none => exact .none
      | some taken' =>
          rw [(OrderedMap.swapRemove?_spec hr').1] at hname
          cases hname
  | some taken =>
      obtain ⟨hfound, hrest⟩ := OrderedMap.swapRemove?_spec hr
      rw [hfound] at hname
      cases hr' : waiting'.swapRemove? name with
      | none =>
          rw [OrderedMap.swapRemove?_eq_none_iff.mp hr'] at hname
          cases hname
      | some taken' =>
          obtain ⟨hfound', hrest'⟩ := OrderedMap.swapRemove?_spec hr'
          rw [hfound'] at hname
          cases hname with
          | some hecho =>
              refine .some ⟨hecho, fun other => ?_⟩
              rw [hrest, hrest']
              split
              · exact .none
              · exact h other

theorem Echoes.agree_linkNext (h : declared.Echoes declared')
    {state state' : Fragments × OrderedMap LinkedFragment} (hs : Alike state state')
    (name : String) :
    Agree Alike (declared.linkNext maxDepth state name)
      (declared'.linkNext maxDepth state' name) := by
  have htaken := rel_swapRemove? hs.waiting name
  obtain ⟨waiting, linked⟩ := state
  obtain ⟨waiting', linked'⟩ := state'
  dsimp only [linkNext] at htaken ⊢
  generalize waiting.swapRemove? name = taken, waiting'.swapRemove? name = taken' at htaken ⊢
  cases htaken with
  | none => exact agree_throw _
  | some htaken =>
      obtain ⟨hecho, hwaiting⟩ := htaken
      refine (Selection.agree_linkAt (h.agree_splice hs.linked) hecho 1).bind ?_
      intro reached reached' hr
      refine .done ⟨hwaiting, fun other => ?_⟩
      rw [OrderedMap.find?_insert, OrderedMap.find?_insert]
      split
      · exact .some ⟨hr.1, hr.2⟩
      · exact hs.linked other

theorem Echoes.agree_linkAll (h : declared.Echoes declared') (order : List String) :
    Agree (fun linked linked' => ∀ name,
        Option.Rel LinkedFragment.Echoes (linked.find? name) (linked'.find? name))
      (declared.linkAll maxDepth order) (declared'.linkAll maxDepth order) := by
  have hstart : Alike (declared, ∅) (declared', ∅) := ⟨h.find?, fun _ => .none⟩
  unfold linkAll
  exact (Agree.foldlM (fun _ _ name hs => h.agree_linkNext hs name) hstart order).bind
    fun _ _ hs => .done hs.linked

end Fragments

/-- Repeated parts of a document are refused with the same error, or linked to repeated parts. -/
theorem Resolved.Echoes.agree_link {resolved resolved' : Resolved} (h : resolved.Echoes resolved')
    (maxDepth : Nat) :
    Agree (List.Forall₂ Operation.Echoes) (resolved.link maxDepth) (resolved'.link maxDepth) := by
  unfold link
  rw [← h.fragments.linkOrder_eq]
  refine .bind_same _ fun order => ?_
  apply (h.fragments.agree_linkAll order).bind
  intro linked linked' hl
  refine .mapM (h.operations.imp fun operation operation' ho => ?_)
  refine (Selection.agree_linkAt (h.fragments.agree_splice hl) ho.selection 1).bind ?_
  intro reached reached' hr
  exact .done ⟨ho.kind, ho.name?, ho.vars, hr.1⟩

end QueryShape
