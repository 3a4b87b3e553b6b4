import Mathlib.Data.List.Forall2
import Mathlib.Logic.Relation

/-!
# Lists with repeated blocks

Blocks of a list are repeated right behind themselves. What depends only on the first or on the last
occurrences in a list does not see it.
-/

namespace QueryShape

variable {α β γ δ : Type}

inductive RepeatsOnce : List α → List α → Prop where
  | intro (before block after : List α) :
      RepeatsOnce (before ++ block ++ after) (before ++ block ++ block ++ after)

/-- The second list is made from the first by repeating blocks, one after the other. -/
def Repeats : List α → List α → Prop := Relation.ReflTransGen RepeatsOnce

namespace Repeats

variable {xs ys zs : List α}

theorem refl (xs : List α) : Repeats xs xs := Relation.ReflTransGen.refl

theorem trans (h : Repeats xs ys) (h' : Repeats ys zs) : Repeats xs zs :=
  Relation.ReflTransGen.trans h h'

theorem single (before block after : List α) :
    Repeats (before ++ block ++ after) (before ++ block ++ block ++ after) :=
  Relation.ReflTransGen.single (.intro before block after)

/-- What does not change when one block is repeated does not change. -/
theorem eq_of_repeats {f : List α → β}
    (hf : ∀ before block after,
      f (before ++ block ++ block ++ after) = f (before ++ block ++ after))
    (h : Repeats xs ys) : f ys = f xs := by
  induction h with
  | refl => rfl
  | tail _ hstep ih =>
      obtain ⟨before, block, after⟩ := hstep
      rw [hf, ih]

theorem append_left (zs : List α) (h : Repeats xs ys) : Repeats (zs ++ xs) (zs ++ ys) := by
  refine Relation.ReflTransGen.lift (zs ++ ·) (fun _ _ hstep => ?_) xs ys h
  obtain ⟨before, block, after⟩ := hstep
  have := RepeatsOnce.intro (zs ++ before) block after
  simpa only [Function.onFun, List.append_assoc] using this

theorem append_right (zs : List α) (h : Repeats xs ys) : Repeats (xs ++ zs) (ys ++ zs) := by
  refine Relation.ReflTransGen.lift (· ++ zs) (fun _ _ hstep => ?_) xs ys h
  obtain ⟨before, block, after⟩ := hstep
  have := RepeatsOnce.intro before block (after ++ zs)
  simpa only [Function.onFun, List.append_assoc] using this

theorem append {xs' ys' : List α} (h : Repeats xs ys) (h' : Repeats xs' ys') :
    Repeats (xs ++ xs') (ys ++ ys') :=
  (h.append_right xs').trans (h'.append_left ys)

theorem flatMap (f : α → List β) (h : Repeats xs ys) : Repeats (xs.flatMap f) (ys.flatMap f) := by
  refine Relation.ReflTransGen.lift (List.flatMap f) (fun _ _ hstep => ?_) xs ys h
  obtain ⟨before, block, after⟩ := hstep
  have := RepeatsOnce.intro (before.flatMap f) (block.flatMap f) (after.flatMap f)
  simpa only [Function.onFun, List.flatMap_append] using this

theorem map (f : α → β) (h : Repeats xs ys) : Repeats (xs.map f) (ys.map f) := by
  simpa only [← List.map_eq_flatMap] using h.flatMap fun x => [f x]

theorem filter (p : α → Bool) (h : Repeats xs ys) : Repeats (xs.filter p) (ys.filter p) := by
  refine Relation.ReflTransGen.lift (List.filter p) (fun _ _ hstep => ?_) xs ys h
  obtain ⟨before, block, after⟩ := hstep
  have := RepeatsOnce.intro (before.filter p) (block.filter p) (after.filter p)
  simpa only [Function.onFun, List.filter_append] using this

theorem mem_iff (h : Repeats xs ys) (x : α) : x ∈ ys ↔ x ∈ xs := by
  refine iff_of_eq (h.eq_of_repeats (f := (x ∈ ·)) fun before block after => ?_)
  simp

private theorem or_repeat (a b c : Option α) : ((a.or b).or b).or c = (a.or b).or c := by
  cases a <;> cases b <;> rfl

theorem find?_eq (p : α → Bool) (h : Repeats xs ys) : ys.find? p = xs.find? p := by
  apply h.eq_of_repeats
  intro before block after
  simp only [List.find?_append, or_repeat]

theorem head?_eq (h : Repeats xs ys) : ys.head? = xs.head? := by
  apply h.eq_of_repeats
  intro before block after
  simp only [List.head?_append, or_repeat]

theorem eraseDups_eq [BEq α] [LawfulBEq α] (h : Repeats xs ys) : ys.eraseDups = xs.eraseDups := by
  apply h.eq_of_repeats
  intro before block after
  have hgone : (block ++ after).removeAll (before ++ block) =
      after.removeAll (before ++ block) := by
    rw [List.removeAll, List.filter_append, List.filter_eq_nil_iff.mpr, List.nil_append,
      List.removeAll]
    intro x hx
    simp [hx]
  rw [List.append_assoc (before ++ block), List.eraseDups_append, hgone, ← List.eraseDups_append]

theorem foldr_max_eq {xs ys : List Nat} (h : Repeats xs ys) :
    ys.foldr max 0 = xs.foldr max 0 := by
  have happend (xs ys : List Nat) :
      (xs ++ ys).foldr max 0 = max (xs.foldr max 0) (ys.foldr max 0) := by
    induction xs with
    | nil => simp
    | cons x xs ih => rw [List.cons_append, List.foldr_cons, List.foldr_cons, ih, Nat.max_assoc]
  apply h.eq_of_repeats (f := List.foldr max 0)
  intro before block after
  simp only [happend]
  omega

end Repeats

/-- The second list is made from the first by replacing elements by related ones and then repeating
blocks. -/
def RepeatsUpTo (R : α → β → Prop) (xs : List α) (ys : List β) : Prop :=
  ∃ zs, List.Forall₂ R xs zs ∧ Repeats zs ys

namespace RepeatsUpTo

variable {R : α → β → Prop} {S : γ → δ → Prop} {xs : List α} {ys : List β}

theorem nil : RepeatsUpTo R [] [] := ⟨[], .nil, .refl []⟩

theorem of_repeats {R : α → α → Prop} (hR : ∀ x, R x x) {xs ys : List α} (h : Repeats xs ys) :
    RepeatsUpTo R xs ys := ⟨xs, List.forall₂_same.mpr fun x _ => hR x, h⟩

theorem singleton {x : α} {y : β} (h : R x y) : RepeatsUpTo R [x] [y] :=
  ⟨[y], .cons h .nil, .refl [y]⟩

theorem append {xs' : List α} {ys' : List β} (h : RepeatsUpTo R xs ys)
    (h' : RepeatsUpTo R xs' ys') : RepeatsUpTo R (xs ++ xs') (ys ++ ys') := by
  obtain ⟨zs, hr, hrep⟩ := h
  obtain ⟨zs', hr', hrep'⟩ := h'
  exact ⟨zs ++ zs', List.rel_append hr hr', hrep.append hrep'⟩

theorem imp {R' : α → β → Prop} (h : RepeatsUpTo R xs ys)
    (hR : ∀ x ∈ xs, ∀ y, R x y → R' x y) : RepeatsUpTo R' xs ys := by
  obtain ⟨zs, hr, hrep⟩ := h
  refine ⟨zs, ?_, hrep⟩
  exact ((List.forall₂_and_left xs zs).mpr ⟨fun _ hx => hx, hr⟩).imp fun x y hxy =>
    hR x hxy.1 y hxy.2

theorem flatMap {f : α → List γ} {g : β → List δ}
    (hf : ∀ x y, R x y → RepeatsUpTo S (f x) (g y)) (h : RepeatsUpTo R xs ys) :
    RepeatsUpTo S (xs.flatMap f) (ys.flatMap g) := by
  obtain ⟨zs, hr, hrep⟩ := h
  have hjoined : RepeatsUpTo S (xs.flatMap f) (zs.flatMap g) := by
    clear hrep
    induction hr with
    | nil => exact nil
    | cons hxz _ ih =>
        rw [List.flatMap_cons, List.flatMap_cons]
        exact (hf _ _ hxz).append ih
  obtain ⟨joined, hj, hjrep⟩ := hjoined
  exact ⟨joined, hj, hjrep.trans (hrep.flatMap g)⟩

theorem map {f : α → γ} {g : β → δ} (hf : ∀ x y, R x y → S (f x) (g y)) (h : RepeatsUpTo R xs ys) :
    RepeatsUpTo S (xs.map f) (ys.map g) := by
  obtain ⟨zs, hr, hrep⟩ := h
  refine ⟨zs.map g, ?_, hrep.map g⟩
  rw [List.forall₂_map_left_iff, List.forall₂_map_right_iff]
  exact hr.imp hf

theorem filter {p : α → Bool} {q : β → Bool} (hpq : ∀ x y, R x y → p x = q y)
    (h : RepeatsUpTo R xs ys) : RepeatsUpTo R (xs.filter p) (ys.filter q) := by
  obtain ⟨zs, hr, hrep⟩ := h
  refine ⟨zs.filter q, List.rel_filter (fun x y hxy => ?_) hr, hrep.filter q⟩
  exact iff_of_eq (congrArg (· = true) (hpq x y hxy))

theorem repeats_of_eq {xs ys : List α} (h : RepeatsUpTo Eq xs ys) : Repeats xs ys := by
  obtain ⟨zs, hr, hrep⟩ := h
  rw [List.forall₂_eq_eq_eq] at hr
  exact hr ▸ hrep

theorem map_repeats {f : α → γ} {g : β → γ} (hfg : ∀ x ∈ xs, ∀ y, R x y → f x = g y)
    (h : RepeatsUpTo R xs ys) : Repeats (xs.map f) (ys.map g) :=
  ((h.imp hfg).map (S := Eq) (f := f) (g := g) fun _ _ heq => heq).repeats_of_eq

theorem repeats_flatMap {f : α → List γ} {g : β → List γ}
    (hfg : ∀ x ∈ xs, ∀ y, R x y → Repeats (f x) (g y)) (h : RepeatsUpTo R xs ys) :
    Repeats (xs.flatMap f) (ys.flatMap g) := by
  have hjoined : RepeatsUpTo Eq (xs.flatMap f) (ys.flatMap g) :=
    (h.imp hfg).flatMap fun _ _ hrep => .of_repeats (fun _ => rfl) hrep
  exact hjoined.repeats_of_eq

end RepeatsUpTo
end QueryShape
