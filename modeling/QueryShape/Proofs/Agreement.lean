import QueryShape.Proofs.Outcome
import QueryShape.Proofs.Repeats

/-!
# Outcomes that agree

Two steps agree if both refuse a document with the same error, or both succeed with results that are
related.
-/

namespace QueryShape.Outcome

variable {α β γ δ : Type}

/-- The same error, or related results. -/
inductive Agree (R : α → β → Prop) : Typing α → Typing β → Prop where
  | refused (error : TypingError) : Agree R (.error error) (.error error)
  | done {a : α} {b : β} (h : R a b) : Agree R (.ok a) (.ok b)

theorem agree_eq_iff {x y : Typing α} : Agree Eq x y ↔ x = y := by
  constructor
  · rintro (error | h)
    · rfl
    · rw [h]
  · rintro rfl
    cases x with
    | error error => exact .refused error
    | ok a => exact .done rfl

theorem agree_throw {R : α → β → Prop} (error : TypingError) :
    Agree R (throw error) (throw error) := .refused error

namespace Agree

variable {R : α → β → Prop} {S : γ → δ → Prop}

theorem refl {R : α → α → Prop} (hR : ∀ a, R a a) (x : Typing α) : Agree R x x := by
  cases x with
  | error error => exact .refused error
  | ok a => exact .done (hR a)

theorem imp {R' : α → β → Prop} (hR : ∀ a b, R a b → R' a b) {x : Typing α} {y : Typing β}
    (h : Agree R x y) : Agree R' x y := by
  cases h with
  | refused error => exact .refused error
  | done h => exact .done (hR _ _ h)

theorem trans {R' : β → γ → Prop} {T : α → γ → Prop} {x : Typing α} {y : Typing β} {z : Typing γ}
    (h : Agree R x y) (h' : Agree R' y z) (hT : ∀ a b c, R a b → R' b c → T a c) :
    Agree T x z := by
  cases h with
  | refused error =>
      cases h'
      exact .refused error
  | done h =>
      cases h' with
      | done h' => exact .done (hT _ _ _ h h')

theorem bind {x : Typing α} {y : Typing β} {f : α → Typing γ} {g : β → Typing δ}
    (h : Agree R x y) (hfg : ∀ a b, R a b → Agree S (f a) (g b)) : Agree S (x >>= f) (y >>= g) := by
  cases h with
  | refused error => exact .refused error
  | done h => exact hfg _ _ h

theorem bind_same_of_ok {x : Typing α} {f : α → Typing γ} {g : α → Typing δ}
    (hfg : ∀ a, x = .ok a → Agree S (f a) (g a)) : Agree S (x >>= f) (x >>= g) := by
  cases x with
  | error error => exact .refused error
  | ok a => exact hfg a rfl

theorem bind_same (x : Typing α) {f : α → Typing γ} {g : α → Typing δ}
    (hfg : ∀ a, Agree S (f a) (g a)) : Agree S (x >>= f) (x >>= g) :=
  bind_same_of_ok fun a _ => hfg a

theorem mapM {f : α → Typing γ} {g : β → Typing δ} {xs : List α} {ys : List β}
    (h : List.Forall₂ (fun x y => Agree S (f x) (g y)) xs ys) :
    Agree (List.Forall₂ S) (xs.mapM f) (ys.mapM g) := by
  induction h with
  | nil => exact .done .nil
  | cons hxy _ ih =>
      rw [List.mapM_cons, List.mapM_cons]
      exact hxy.bind fun c d hcd => ih.bind fun cs ds hrest => .done (.cons hcd hrest)

theorem foldlM {R : α → β → Prop} {f : α → γ → Typing α} {g : β → γ → Typing β}
    (hfg : ∀ a b c, R a b → Agree R (f a c) (g b c)) {a : α} {b : β} (h : R a b) (cs : List γ) :
    Agree R (cs.foldlM f a) (cs.foldlM g b) := by
  induction cs generalizing a b with
  | nil => exact .done h
  | cons c cs ih =>
      rw [List.foldlM_cons, List.foldlM_cons]
      exact (hfg a b c h).bind fun _ _ => ih

end Agree

theorem agree_mapM_of_repeats (f : α → Typing γ) {xs ys : List α} (h : Repeats xs ys) :
    Agree Repeats (xs.mapM f) (ys.mapM f) := by
  induction h with
  | refl => exact .refl .refl _
  | tail _ hstep ih =>
      refine ih.trans ?_ fun _ _ _ => Repeats.trans
      obtain ⟨before, block, after⟩ := hstep
      simp only [List.mapM_append]
      cases before.mapM f with
      | error error => exact .refused error
      | ok cs =>
          cases block.mapM f with
          | error error => exact .refused error
          | ok ds =>
              cases after.mapM f with
              | error error => exact .refused error
              | ok es => exact .done (.single cs ds es)

theorem Agree.mapM_repeats {S : γ → δ → Prop} {f : α → Typing γ} {g : β → Typing δ} {xs : List α}
    {ys : List β} (h : RepeatsUpTo (fun x y => Agree S (f x) (g y)) xs ys) :
    Agree (RepeatsUpTo S) (xs.mapM f) (ys.mapM g) := by
  obtain ⟨zs, hr, hrep⟩ := h
  exact (Agree.mapM hr).trans (agree_mapM_of_repeats g hrep) fun _ middle _ hs hsrep =>
    ⟨middle, hs, hsrep⟩

end QueryShape.Outcome
