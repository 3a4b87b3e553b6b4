/-!
# Counting by a test

A stricter test that turns down one of the members that passed before counts fewer of them. Searches
whose set of candidates shrinks end by this.
-/

namespace QueryShape

theorem countP_lt_of_imp {α : Type} {p q : α → Bool} (h : ∀ a, q a = true → p a = true) {a : α}
    {l : List α} (ha : a ∈ l) (hp : p a = true) (hq : q a = false) : l.countP q < l.countP p := by
  induction l with
  | nil => simp at ha
  | cons b l ih =>
      simp only [List.countP_cons]
      rcases List.mem_cons.mp ha with rfl | ha
      · have := List.countP_mono_left (l := l) fun x _ => h x
        rw [hp, hq]
        simp only [if_true, Bool.false_eq_true, if_false]
        omega
      · have := ih ha
        by_cases hb : q b = true
        · rw [hb, h b hb]
          omega
        · rw [if_neg hb]
          omega

end QueryShape
