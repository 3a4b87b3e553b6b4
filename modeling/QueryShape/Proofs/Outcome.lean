import Mathlib.Data.List.Forall2
import QueryShape.TypingError

/-!
# Outcomes

What a step that can refuse a document succeeds or fails with, in terms of the steps it is made of.
-/

namespace QueryShape.Outcome

variable {ε α β : Type}

@[simp] theorem bind_eq_ok {x : Except ε α} {f : α → Except ε β} {b : β} :
    (x >>= f) = .ok b ↔ ∃ a, x = .ok a ∧ f a = .ok b := by
  cases x <;> simp [bind, Except.bind]

@[simp] theorem bind_eq_error {x : Except ε α} {f : α → Except ε β} {error : ε} :
    (x >>= f) = .error error ↔ x = .error error ∨ ∃ a, x = .ok a ∧ f a = .error error := by
  cases x <;> simp [bind, Except.bind]

@[simp] theorem pure_eq_ok {a b : α} : (pure a : Except ε α) = .ok b ↔ a = b := by
  simp [pure, Except.pure]

@[simp] theorem pure_ne_error {a : α} {error : ε} :
    (pure a : Except ε α) ≠ .error error := by
  simp [pure, Except.pure]

@[simp] theorem mapError_eq_ok_iff {ε' : Type} {f : ε → ε'} {x : Except ε α} {a : α} :
    x.mapError f = .ok a ↔ x = .ok a := by
  cases x <;> simp [Except.mapError]

@[simp] theorem mapError_eq_error_iff {ε' : Type} {f : ε → ε'} {x : Except ε α} {error : ε'} :
    x.mapError f = .error error ↔ ∃ cause, x = .error cause ∧ f cause = error := by
  cases x <;> simp [Except.mapError]

theorem toOption_eq_some_iff {x : Except ε α} {a : α} : x.toOption = some a ↔ x = .ok a := by
  cases x <;> simp [Except.toOption]

@[simp] theorem throw_eq_error {error cause : TypingError} :
    (throw cause : Typing α) = .error error ↔ cause = error := by
  simp [throw, throwThe, MonadExceptOf.throw]

@[simp] theorem throw_ne_ok {cause : TypingError} {a : α} : (throw cause : Typing α) ≠ .ok a := by
  simp [throw, throwThe, MonadExceptOf.throw]

theorem mapM_eq_ok {f : α → Typing β} {inputs : List α} {outputs : List β}
    (h : inputs.mapM f = .ok outputs) :
    List.Forall₂ (fun input output => f input = .ok output) inputs outputs := by
  induction inputs generalizing outputs with
  | nil =>
      simp only [List.mapM_nil, pure_eq_ok] at h
      exact h ▸ .nil
  | cons input inputs ih =>
      simp only [List.mapM_cons, bind_eq_ok, pure_eq_ok] at h
      obtain ⟨output, ho, others, hr, rfl⟩ := h
      exact .cons ho (ih hr)

theorem exists_of_mem_forall₂ {R : α → β → Prop} {inputs : List α} {outputs : List β}
    (h : List.Forall₂ R inputs outputs) {output : β} (ho : output ∈ outputs) :
    ∃ input ∈ inputs, R input output := by
  induction h with
  | nil => cases ho
  | cons hr _ ih =>
      rcases List.mem_cons.mp ho with rfl | ho
      · exact ⟨_, List.mem_cons_self, hr⟩
      · obtain ⟨input, hi, hr⟩ := ih ho
        exact ⟨input, List.mem_cons_of_mem _ hi, hr⟩

theorem exists_forall₂_iff (R : α → β → Prop) (inputs : List α) :
    (∃ outputs, List.Forall₂ R inputs outputs) ↔ ∀ input ∈ inputs, ∃ output, R input output := by
  induction inputs with
  | nil => simp
  | cons input inputs ih =>
      rw [List.forall_mem_cons, ← ih]
      constructor
      · rintro ⟨_, hall⟩
        obtain ⟨output, outputs, ho, hos, -⟩ := List.forall₂_cons_left_iff.mp hall
        exact ⟨⟨output, ho⟩, outputs, hos⟩
      · rintro ⟨⟨output, ho⟩, outputs, hos⟩
        exact ⟨output :: outputs, .cons ho hos⟩

theorem map_eq_map_of_forall₂ {γ : Type} {R : α → β → Prop} {f : α → γ} {g : β → γ}
    {inputs : List α} {outputs : List β} (h : List.Forall₂ R inputs outputs)
    (hfg : ∀ input output, R input output → f input = g output) :
    inputs.map f = outputs.map g := by
  rw [← List.forall₂_eq_eq_eq, List.forall₂_map_left_iff, List.forall₂_map_right_iff]
  exact h.imp hfg

theorem exists_getElem?_of_forall₂ {R : α → β → Prop} {inputs : List α} {outputs : List β}
    (h : List.Forall₂ R inputs outputs) {i : Nat} {input : α} (hi : inputs[i]? = some input) :
    ∃ output, outputs[i]? = some output ∧ R input output := by
  induction h generalizing i with
  | nil => simp at hi
  | cons hr _ ih =>
      cases i with
      | zero =>
          cases hi
          exact ⟨_, rfl, hr⟩
      | succ i => exact ih hi

theorem mapM_eq_error {f : α → Typing β} {inputs : List α} {error : TypingError}
    (h : inputs.mapM f = .error error) : ∃ input ∈ inputs, f input = .error error := by
  induction inputs with
  | nil => simp at h
  | cons input inputs ih =>
      simp only [List.mapM_cons, bind_eq_error, pure_ne_error, and_false, exists_false,
        or_false] at h
      rcases h with h | ⟨_, _, h⟩
      · exact ⟨input, List.mem_cons_self, h⟩
      · obtain ⟨other, ho, h⟩ := ih h
        exact ⟨other, List.mem_cons_of_mem _ ho, h⟩

theorem exists_mapM_eq_ok {f : α → Typing β} {inputs : List α}
    (h : ∀ input ∈ inputs, ∃ output, f input = .ok output) :
    ∃ outputs, inputs.mapM f = .ok outputs := by
  cases hm : inputs.mapM f with
  | ok outputs => exact ⟨outputs, rfl⟩
  | error error =>
      obtain ⟨input, hi, he⟩ := mapM_eq_error hm
      obtain ⟨output, ho⟩ := h input hi
      rw [he] at ho
      cases ho

theorem exists_mapM_eq_ok_iff {f : α → Typing β} {inputs : List α} :
    (∃ outputs, inputs.mapM f = .ok outputs) ↔
      ∀ input ∈ inputs, ∃ output, f input = .ok output := by
  refine ⟨fun ⟨outputs, h⟩ input hi => ?_, exists_mapM_eq_ok⟩
  obtain ⟨output, _, ho⟩ := exists_of_mem_forall₂ (mapM_eq_ok h).flip hi
  exact ⟨output, ho⟩

/-- What each step of a loop preserves holds at its end, and where the loop is refused, it holds
before the step that refuses. -/
theorem foldlM_of_step (f : β → α → Typing β) (inputs : List α) (start : β)
    {motive : List α → β → Prop} (hstart : motive [] start)
    (hstep : ∀ done input rest, inputs = done ++ input :: rest → ∀ state next,
      motive done state → f state input = .ok next → motive (done ++ [input]) next) :
    (∀ final, inputs.foldlM f start = .ok final → motive inputs final) ∧
      ∀ error, inputs.foldlM f start = .error error → ∃ done input rest state,
        inputs = done ++ input :: rest ∧ motive done state ∧ f state input = .error error := by
  have hrest (rest done : List α) (state : β) (hsplit : inputs = done ++ rest)
      (hstate : motive done state) :
      (∀ final, rest.foldlM f state = .ok final → motive inputs final) ∧
        ∀ error, rest.foldlM f state = .error error → ∃ done input rest state,
          inputs = done ++ input :: rest ∧ motive done state ∧ f state input = .error error := by
    induction rest generalizing done state with
    | nil =>
        refine ⟨fun final h => ?_, fun error h => ?_⟩
        · cases h
          rwa [hsplit, List.append_nil]
        · cases h
    | cons input rest ih =>
        have hnext {next} (hn : f state input = .ok next) :=
          ih (done ++ [input]) next (by simpa using hsplit)
            (hstep done input rest hsplit state next hstate hn)
        refine ⟨fun final h => ?_, fun error h => ?_⟩
        · rw [List.foldlM_cons, bind_eq_ok] at h
          obtain ⟨next, hn, h⟩ := h
          exact (hnext hn).1 final h
        · rw [List.foldlM_cons, bind_eq_error] at h
          rcases h with h | ⟨next, hn, h⟩
          · exact ⟨done, input, rest, state, hsplit, hstate, h⟩
          · exact (hnext hn).2 error h
  exact hrest inputs [] start rfl hstart

theorem checkDepth_eq_error {maxDepth depth : Nat} {error : TypingError} :
    checkDepth maxDepth depth = .error error ↔ maxDepth < depth ∧ .tooDeep maxDepth = error := by
  unfold checkDepth
  split
  · next hd => simp [hd]
  · next hd => simp [hd]

theorem checkDepth_of_le {maxDepth depth : Nat} (h : depth ≤ maxDepth) :
    checkDepth maxDepth depth = pure () := by
  unfold checkDepth
  rw [if_neg (by omega)]

theorem checkDepth_eq_ok {maxDepth depth : Nat} {done : Unit} :
    checkDepth maxDepth depth = .ok done ↔ depth ≤ maxDepth := by
  unfold checkDepth
  split
  · next hd => simp [hd]
  · next hd => simpa using hd

/-- Two checks are one check of the deeper place. -/
theorem checkDepth_bind_checkDepth (maxDepth depth other : Nat) (next : Typing α) :
    (checkDepth maxDepth depth >>= fun _ => checkDepth maxDepth other >>= fun _ => next) =
      checkDepth maxDepth (max depth other) >>= fun _ => next := by
  unfold checkDepth
  by_cases hd : depth > maxDepth
  · have hmax : max depth other > maxDepth := by omega
    rw [if_pos hd, if_pos hmax]
    rfl
  · rw [if_neg hd, pure_bind]
    by_cases ho : other > maxDepth
    · have hmax : max depth other > maxDepth := by omega
      rw [if_pos ho, if_pos hmax]
    · have hmax : ¬ max depth other > maxDepth := by omega
      rw [if_neg ho, if_neg hmax]

theorem checkDepth_zero (maxDepth : Nat) : checkDepth maxDepth 0 = pure () :=
  checkDepth_of_le (Nat.zero_le maxDepth)

end QueryShape.Outcome
