import QueryShape.Program

/-!
# What programs do

A program that only prints leaves its text behind, and one that only fails leaves its message.
-/

namespace QueryShape.Program

variable {ε ε' α β : Type}

@[simp] theorem check_ok (cause : ε → ε') (result : α) : check cause (.ok result) = pure result :=
  rfl

@[simp] theorem check_error (cause : ε → ε') (error : ε) :
    (check cause (.error error) : Program ε' α) = throw (cause error) := rfl

@[simp] theorem orThrow_some (cause : ε) (result : α) :
    orThrow cause (some result) = pure result := rfl

@[simp] theorem orThrow_none (cause : ε) : (orThrow cause none : Program ε α) = throw cause := rfl

@[simp] theorem throw_bind (error : ε) (next : α → Program ε β) :
    ((throw error : Program ε α) >>= next) = throw error := rfl

theorem run_print (text : String) (outcome : Outcome) :
    (print text : Program ε Unit) outcome =
      (.ok (), { outcome with stdout := outcome.stdout ++ text }) := rfl

theorem run_complain (text : String) (outcome : Outcome) :
    (complain text : Program ε Unit) outcome =
      (.ok (), { outcome with stderr := outcome.stderr ++ text }) := rfl

@[simp] theorem print_empty : (print "" : Program ε Unit) = pure () := by
  funext outcome
  rw [run_print, String.append_empty]
  rfl

@[simp] theorem complain_empty : (complain "" : Program ε Unit) = pure () := by
  funext outcome
  rw [run_complain, String.append_empty]
  rfl

theorem print_bind_print (text rest : String) :
    (do print text; print rest : Program ε Unit) = print (text ++ rest) := by
  funext outcome
  rw [run_print, ← String.append_assoc]
  rfl

theorem forM_print {f : α → Program ε Unit} {g : α → String} (h : ∀ a, f a = print (g a))
    (items : List α) : items.forM f = print (String.join (items.map g)) := by
  induction items with
  | nil => exact print_empty.symm
  | cons item items ih =>
      rw [List.map_cons, String.join_cons, ← print_bind_print, ← h, ← ih]
      rfl

@[simp] theorem leave_print (text : String) (message : ε → String) :
    (print text).leave message = { stdout := text } := by
  have hempty : "" ++ text = text := String.empty_append
  rw [← hempty]
  rfl

@[simp] theorem leave_throw (error : ε) (message : ε → String) :
    (throw error : Program ε Unit).leave message =
      { exitCode := 1, stderr := message error ++ "\n" } := by
  have hempty : "" ++ message error ++ "\n" = message error ++ "\n" := by
    rw [String.empty_append]
  rw [← hempty]
  rfl

end QueryShape.Program
