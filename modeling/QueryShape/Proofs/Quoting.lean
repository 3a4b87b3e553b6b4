import Mathlib.Tactic.SplitIfs
import QueryShape.Json

/-!
# Reading quoted strings

No escape of a character is the beginning of another one's, and none begins with a quotation mark.
The end of a quoted string is therefore known from its beginning, and so is the string.
-/

namespace QueryShape.Json

def shortEscapes : List (Char × Char) :=
  [('"', '"'), ('\\', '\\'), ('\x08', 'b'), ('\x0c', 'f'), ('\n', 'n'), ('\r', 'r'), ('\t', 't')]

/-- The three ways of writing a character between quotation marks. -/
inductive Escaped (c : Char) : List Char → Prop where
  | short {mark : Char} (h : (c, mark) ∈ shortEscapes) : Escaped c ['\\', mark]
  | code (h : c.toNat < 0x20) : Escaped c
      ['\\', 'u', '0', '0', hexDigit (c.toNat / 16), hexDigit (c.toNat % 16)]
  | plain (hquote : c ≠ '"') (hbackslash : c ≠ '\\') : Escaped c [c]

theorem escaped_escape (c : Char) : Escaped c (escape c) := by
  unfold escape
  split_ifs with hquote hbackslash hb hf hn hr ht hcode
  · exact .short (by simp [shortEscapes, hquote])
  · exact .short (by simp [shortEscapes, hbackslash])
  · exact .short (by simp [shortEscapes, hb])
  · exact .short (by simp [shortEscapes, hf])
  · exact .short (by simp [shortEscapes, hn])
  · exact .short (by simp [shortEscapes, hr])
  · exact .short (by simp [shortEscapes, ht])
  · exact .code hcode
  · exact .plain hquote hbackslash

theorem shortEscapes_inj {c d mark : Char} (hc : (c, mark) ∈ shortEscapes)
    (hd : (d, mark) ∈ shortEscapes) : c = d := by
  have h : ∀ pair ∈ shortEscapes, ∀ other ∈ shortEscapes, pair.2 = other.2 → pair.1 = other.1 := by
    decide
  exact h _ hc _ hd rfl

theorem not_mem_shortEscapes (c : Char) : (c, 'u') ∉ shortEscapes := by
  have hnone : ∀ pair ∈ shortEscapes, pair.2 ≠ 'u' := by decide
  intro h
  exact hnone _ h rfl

theorem hexDigit_inj {m n : Nat} (hm : m < 16) (hn : n < 16) (h : hexDigit m = hexDigit n) :
    m = n := by
  have hall : ∀ m < 16, ∀ n < 16, hexDigit m = hexDigit n → m = n := by decide
  exact hall m hm n hn h

/-- Where two texts begin with a character each, in one of the ways to write it, these are the same
character and the same is left of the texts. -/
theorem Escaped.append_inj {c d : Char} {written written' rest rest' : List Char}
    (hc : Escaped c written) (hd : Escaped d written') (h : written ++ rest = written' ++ rest') :
    c = d ∧ rest = rest' := by
  cases hc with
  | short hc =>
      cases hd with
      | short hd =>
          simp only [List.cons_append, List.nil_append, List.cons.injEq, true_and] at h
          obtain ⟨rfl, hrest⟩ := h
          exact ⟨shortEscapes_inj hc hd, hrest⟩
      | code hd =>
          simp only [List.cons_append, List.nil_append, List.cons.injEq, true_and] at h
          obtain ⟨rfl, -⟩ := h
          exact absurd hc (not_mem_shortEscapes c)
      | plain _ hd => exact absurd (List.cons.inj h).1.symm hd
  | code hc =>
      cases hd with
      | short hd =>
          simp only [List.cons_append, List.nil_append, List.cons.injEq, true_and] at h
          obtain ⟨rfl, -⟩ := h
          exact absurd hd (not_mem_shortEscapes d)
      | code hd =>
          simp only [List.cons_append, List.nil_append, List.cons.injEq, true_and] at h
          obtain ⟨hhigh, hlow, hrest⟩ := h
          have hhigh := hexDigit_inj (by omega) (by omega) hhigh
          have hlow := hexDigit_inj (by omega) (by omega) hlow
          have hcode : c.toNat = d.toNat := by omega
          exact ⟨Char.toNat_inj.mp hcode, hrest⟩
      | plain _ hd => exact absurd (List.cons.inj h).1.symm hd
  | plain hquote hbackslash =>
      cases hd with
      | short => exact absurd (List.cons.inj h).1 hbackslash
      | code => exact absurd (List.cons.inj h).1 hbackslash
      | plain => exact List.cons.inj h

theorem Escaped.append_ne_quote {c : Char} {written : List Char} (h : Escaped c written)
    (rest rest' : List Char) : written ++ rest ≠ '"' :: rest' := by
  intro heq
  cases h with
  | short => exact absurd (List.cons.inj heq).1 (by decide)
  | code => exact absurd (List.cons.inj heq).1 (by decide)
  | plain hquote => exact hquote (List.cons.inj heq).1

/-- A quoted string ends at the first quotation mark that is not part of an escape. -/
theorem flatMap_escape_append_inj {text text' rest rest' : List Char}
    (h : text.flatMap escape ++ '"' :: rest = text'.flatMap escape ++ '"' :: rest') :
    text = text' ∧ rest = rest' := by
  induction text generalizing text' with
  | nil =>
      cases text' with
      | nil => exact ⟨rfl, (List.cons.inj h).2⟩
      | cons d text' =>
          rw [List.flatMap_cons, List.append_assoc] at h
          exact absurd h.symm ((escaped_escape d).append_ne_quote _ _)
  | cons c text ih =>
      rw [List.flatMap_cons, List.append_assoc] at h
      cases text' with
      | nil => exact absurd h ((escaped_escape c).append_ne_quote _ _)
      | cons d text' =>
          rw [List.flatMap_cons, List.append_assoc] at h
          obtain ⟨rfl, htail⟩ := (escaped_escape c).append_inj (escaped_escape d) h
          obtain ⟨rfl, hrest⟩ := ih htail
          exact ⟨rfl, hrest⟩

theorem toList_quote (text : String) :
    (quote text).toList = '"' :: (text.toList.flatMap escape ++ ['"']) := by
  rw [quote, String.toList_ofList, List.cons_append]

theorem quote_append_inj {text text' : String} {rest rest' : List Char}
    (h : (quote text).toList ++ rest = (quote text').toList ++ rest') :
    text = text' ∧ rest = rest' := by
  simp only [toList_quote, List.cons_append, List.append_assoc, List.nil_append, List.cons.injEq,
    true_and] at h
  obtain ⟨htext, hrest⟩ := flatMap_escape_append_inj h
  exact ⟨String.toList_inj.mp htext, hrest⟩

end QueryShape.Json
