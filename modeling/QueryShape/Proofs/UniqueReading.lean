import QueryShape.Proofs.Quoting
import QueryShape.Proofs.ShapeParts
import QueryShape.Shape.Text
import QueryShape.Source.Lexer

/-!
# Reading Flow types

A text that begins with the text of a shape, and does not go on with what would make a word longer,
begins with the text of no other shape.
-/

namespace QueryShape

open Source

def isName (text : String) : Bool :=
  match text.toList with
  | [] => false
  | first :: rest => isNameStart first && rest.all isNameCharacter

theorem isNameCharacter_of_isNameStart {c : Char} (h : isNameStart c = true) :
    isNameCharacter c = true := by
  simp only [isNameStart, isNameCharacter, Char.isAlphanum, Bool.or_eq_true] at h ⊢
  tauto

theorem isNameCharacter_of_mem {name : String} {c : Char} (h : isName name = true)
    (hc : c ∈ name.toList) : isNameCharacter c = true := by
  unfold isName at h
  split at h
  · simp at h
  · next first rest hname =>
    rw [Bool.and_eq_true, List.all_eq_true] at h
    rw [hname] at hc
    rcases List.mem_cons.mp hc with rfl | hc
    · exact isNameCharacter_of_isNameStart h.1
    · exact h.2 c hc

/-- What follows a text without making its last word longer, or an argument to it. -/
def Stops (rest : List Char) : Prop :=
  ∀ c ∈ rest.head?, isNameCharacter c = false ∧ c ≠ '<'

theorem stops_nil : Stops [] := by
  simp [Stops]

theorem stops_cons {c : Char} {rest : List Char} :
    Stops (c :: rest) ↔ isNameCharacter c = false ∧ c ≠ '<' := by
  simp [Stops]

theorem ends_word {c : Char} (h : isNameCharacter c = false) (rest : List Char) :
    ∀ d ∈ (c :: rest).head?, isNameCharacter d = false := by
  simpa using h

theorem word_append_inj {word word' rest rest' : List Char}
    (hword : ∀ c ∈ word, isNameCharacter c = true) (hword' : ∀ c ∈ word', isNameCharacter c = true)
    (hrest : ∀ c ∈ rest.head?, isNameCharacter c = false)
    (hrest' : ∀ c ∈ rest'.head?, isNameCharacter c = false)
    (h : word ++ rest = word' ++ rest') : word = word' ∧ rest = rest' := by
  have hends {rest : List Char} (hrest : ∀ c ∈ rest.head?, isNameCharacter c = false) :
      rest.takeWhile isNameCharacter = [] := by
    cases rest with
    | nil => rfl
    | cons c rest => rw [List.takeWhile_cons_of_neg (by simp [hrest c rfl])]
  have hsame := congrArg (List.takeWhile isNameCharacter) h
  rw [List.takeWhile_append_of_pos hword, List.takeWhile_append_of_pos hword', hends hrest,
    hends hrest', List.append_nil, List.append_nil] at hsame
  subst hsame
  exact ⟨rfl, List.append_cancel_left h⟩

/-! ### Items in a row -/

/-- Which of the two comes next is known, and neither makes a word longer. -/
structure Delimits (separator closing : List Char) : Prop where
  separator_stops : ∀ rest, Stops (separator ++ rest)
  closing_stops : ∀ rest, Stops (closing ++ rest)
  apart : ∀ rest rest', separator ++ rest ≠ closing ++ rest'

/-- What follows the first item of a row: its ending, or a separator and the other items. -/
def afterFirst {α : Type} (item : α → List Char) (separator ending : List Char) :
    List α → List Char
  | [] => ending
  | second :: others =>
      separator ++ (separator.intercalate ((second :: others).map item) ++ ending)

section Rows

variable {α : Type} {item : α → List Char} {separator closing : List Char}

theorem intercalate_cons_append (first : α) (others : List α) (ending : List Char) :
    separator.intercalate ((first :: others).map item) ++ ending =
      item first ++ afterFirst item separator ending others := by
  cases others with
  | nil => rw [List.map_singleton, List.intercalate_singleton, afterFirst]
  | cons second others =>
      rw [List.map_cons, List.map_cons, List.intercalate_cons_cons, List.append_assoc,
        List.append_assoc, afterFirst, List.map_cons]

theorem Delimits.afterFirst_stops (hd : Delimits separator closing) (others : List α)
    (rest : List Char) : Stops (afterFirst item separator (closing ++ rest) others) := by
  cases others with
  | nil => exact hd.closing_stops rest
  | cons => exact hd.separator_stops _

/-- Where an item can be told from the others and from what follows, so can a row of items. -/
theorem intercalate_append_inj {items items' : List α} {rest rest' : List Char}
    (hd : Delimits separator closing) (hne : items ≠ []) (hne' : items' ≠ [])
    (hitem : ∀ x ∈ items, ∀ y ∈ items', ∀ rest rest', Stops rest → Stops rest' →
      item x ++ rest = item y ++ rest' → x = y ∧ rest = rest')
    (h : separator.intercalate (items.map item) ++ (closing ++ rest) =
      separator.intercalate (items'.map item) ++ (closing ++ rest')) :
    items = items' ∧ rest = rest' := by
  induction items generalizing items' with
  | nil => exact absurd rfl hne
  | cons first others ih =>
      cases items' with
      | nil => exact absurd rfl hne'
      | cons first' others' =>
          rw [intercalate_cons_append, intercalate_cons_append] at h
          obtain ⟨rfl, hafter⟩ := hitem first List.mem_cons_self first' List.mem_cons_self _ _
            (hd.afterFirst_stops others rest) (hd.afterFirst_stops others' rest') h
          -- Either both rows end here or both go on, as what closes one is not a separator.
          cases others with
          | nil =>
              cases others' with
              | nil => exact ⟨rfl, List.append_cancel_left hafter⟩
              | cons => exact absurd hafter.symm (hd.apart _ _)
          | cons second others =>
              cases others' with
              | nil => exact absurd hafter (hd.apart _ _)
              | cons second' others' =>
                  have htail := ih (by simp) (by simp)
                    (fun x hx y hy => hitem x (List.mem_cons_of_mem _ hx) y
                      (List.mem_cons_of_mem _ hy))
                    (List.append_cancel_left hafter)
                  exact ⟨by rw [htail.1], htail.2⟩

end Rows

namespace Shape

/-- A union or intersection of several members, keys that are names, and a reference to a name that
is not the one of a shape. -/
def ReadableHere : Shape → Prop
  | .union members | .intersection members => 2 ≤ members.length
  | .object properties => ∀ property ∈ properties, isName property.1 = true
  | .reference name => isName name = true ∧ name ∉ ["boolean", "string", "number"]
  | .boolean | .string | .number | .literal _ | .list _ | .nullable _ => True

instance : DecidablePred ReadableHere
  | .union members | .intersection members => inferInstanceAs (Decidable (2 ≤ members.length))
  | .object properties =>
      inferInstanceAs (Decidable (∀ property ∈ properties, isName property.1 = true))
  | .reference name => inferInstanceAs (Decidable (isName name = true ∧ name ∉ _))
  | .boolean | .string | .number | .literal _ | .list _ | .nullable _ => .isTrue trivial

/-- All that is inside a shape is as the grammar of Flow types has it. -/
def Readable (shape : Shape) : Prop :=
  ∀ inner ∈ shape.preorder, inner.ReadableHere

instance : DecidablePred Readable := fun shape =>
  inferInstanceAs (Decidable (∀ inner ∈ shape.preorder, inner.ReadableHere))

theorem readable_iff {shape : Shape} :
    shape.Readable ↔ shape.ReadableHere ∧ ∀ part ∈ shape.parts, part.Readable :=
  forall_mem_preorder_iff

/-! ### Words -/

def word : Shape → String
  | .boolean => "boolean"
  | .string => "string"
  | .number => "number"
  | .reference name => name
  | .list _ => "Array"
  | .literal _ | .nullable _ | .union _ | .intersection _ | .object _ => ""

def inParentheses (separator : Char) (members : List Shape) : List Char :=
  '(' :: ' ' :: ([' ', separator, ' '].intercalate (members.map fun member => member.text.toList) ++
    [' ', ')'])

def propertyText (property : String × Shape) : List Char :=
  property.1.toList ++ ':' :: ' ' :: property.2.text.toList

def inBraces (properties : List (String × Shape)) : List Char :=
  '{' :: ([',', ' '].intercalate (properties.map propertyText) ++ ['}'])

def afterWord : Shape → List Char
  | .boolean | .string | .number | .reference _ => []
  | .list element => '<' :: (element.text.toList ++ ['>'])
  | .literal value => (Json.quote value).toList
  | .nullable shape => '?' :: shape.text.toList
  | .union members => inParentheses '|' members
  | .intersection members => inParentheses '&' members
  | .object properties => inBraces properties

theorem texts_eq_map (members : List Shape) : texts members = members.map text := by
  induction members with
  | nil => rfl
  | cons member rest ih => rw [texts, ih, List.map_cons]

theorem map_toList_propertyTexts (properties : List (String × Shape)) :
    (propertyTexts properties).map String.toList = properties.map propertyText := by
  induction properties with
  | nil => rfl
  | cons property rest ih =>
      obtain ⟨key, shape⟩ := property
      have hcolon : (": " : String).toList = [':', ' '] := rfl
      rw [propertyTexts, List.map_cons, List.map_cons, ih, propertyText, String.toList_append,
        String.toList_append, hcolon, List.append_assoc, List.cons_append, List.cons_append,
        List.nil_append]

theorem toList_text (shape : Shape) :
    shape.text.toList = shape.word.toList ++ shape.afterWord := by
  cases shape with
  | boolean | string | number | reference => simp [text, word, afterWord]
  | literal value => simp [text, word, afterWord]
  | list element => simp [text, word, afterWord, String.toList_append]
  | nullable shape => simp [text, word, afterWord]
  | union members =>
      simp [text, word, afterWord, inParentheses, texts_eq_map, String.toList_intercalate,
        Function.comp_def]
  | intersection members =>
      simp [text, word, afterWord, inParentheses, texts_eq_map, String.toList_intercalate,
        Function.comp_def]
  | object properties =>
      simp [text, word, afterWord, inBraces, map_toList_propertyTexts, String.toList_intercalate]

theorem isNameCharacter_of_mem_word {shape : Shape} (h : shape.ReadableHere) :
    ∀ c ∈ shape.word.toList, isNameCharacter c = true := by
  cases shape with
  | boolean | string | number => exact List.all_eq_true.mp rfl
  | list element =>
      show ∀ c ∈ "Array".toList, isNameCharacter c = true
      exact List.all_eq_true.mp rfl
  | reference name =>
      intro c hc
      exact isNameCharacter_of_mem h.1 hc
  | literal | nullable | union | intersection | object => simp [word]

theorem isNameCharacter_afterWord (shape : Shape) {rest : List Char} (h : Stops rest) :
    ∀ c ∈ (shape.afterWord ++ rest).head?, isNameCharacter c = false := by
  cases shape with
  | boolean | string | number | reference =>
      intro c hc
      exact (h c hc).1
  | literal value =>
      rw [afterWord, Json.toList_quote]
      exact ends_word rfl _
  | list | nullable | union | intersection | object => exact ends_word rfl _

theorem split_of_text_append {shape other : Shape} {rest rest' : List Char}
    (h : shape.ReadableHere) (ho : other.ReadableHere) (hr : Stops rest) (hr' : Stops rest')
    (heq : shape.text.toList ++ rest = other.text.toList ++ rest') :
    shape.word = other.word ∧ shape.afterWord ++ rest = other.afterWord ++ rest' := by
  rw [toList_text, toList_text, List.append_assoc, List.append_assoc] at heq
  obtain ⟨hword, hafter⟩ := word_append_inj (isNameCharacter_of_mem_word h)
    (isNameCharacter_of_mem_word ho) (isNameCharacter_afterWord shape hr)
    (isNameCharacter_afterWord other hr') heq
  exact ⟨String.toList_inj.mp hword, hafter⟩

theorem delimits_members {separator : Char} (h : separator ≠ ')') :
    Delimits [' ', separator, ' '] [' ', ')'] where
  separator_stops _ := stops_cons.mpr (by decide)
  closing_stops _ := stops_cons.mpr (by decide)
  apart _ _ heq := h (List.cons.inj (List.cons.inj heq).2).1

theorem delimits_properties : Delimits [',', ' '] ['}'] where
  separator_stops _ := stops_cons.mpr (by decide)
  closing_stops _ := stops_cons.mpr (by decide)
  apart _ _ heq := absurd (List.cons.inj heq).1 (by decide)

theorem inParentheses_append_inj {separator separator' : Char} {members members' : List Shape}
    {rest rest' : List Char} (hs : separator ≠ ')')
    (hlength : 2 ≤ members.length) (hlength' : 2 ≤ members'.length)
    (hmember : ∀ member ∈ members, ∀ member' ∈ members', ∀ rest rest', Stops rest → Stops rest' →
      member.text.toList ++ rest = member'.text.toList ++ rest' → member = member' ∧ rest = rest')
    (h : inParentheses separator members ++ rest = inParentheses separator' members' ++ rest') :
    separator = separator' ∧ members = members' ∧ rest = rest' := by
  simp only [inParentheses, List.cons_append, List.append_assoc, List.cons.injEq, true_and] at h
  have hseparator : separator = separator' := by
    match members, members' with
    | first :: second :: others, first' :: second' :: others' =>
        rw [intercalate_cons_append, intercalate_cons_append] at h
        have hafter := (hmember first List.mem_cons_self first' List.mem_cons_self _ _
          (stops_cons.mpr (by decide)) (stops_cons.mpr (by decide)) h).2
        exact (List.cons.inj (List.cons.inj hafter).2).1
  subst hseparator
  exact ⟨rfl, intercalate_append_inj (delimits_members hs) (by rintro rfl; simp at hlength)
    (by rintro rfl; simp at hlength') hmember h⟩

theorem propertyText_append_inj {property property' : String × Shape} {rest rest' : List Char}
    (hkey : isName property.1 = true) (hkey' : isName property'.1 = true)
    (hshape : property.2.text.toList ++ rest = property'.2.text.toList ++ rest' →
      property.2 = property'.2 ∧ rest = rest')
    (h : propertyText property ++ rest = propertyText property' ++ rest') :
    property = property' ∧ rest = rest' := by
  simp only [propertyText, List.append_assoc, List.cons_append] at h
  obtain ⟨hkeys, hafter⟩ := word_append_inj (fun _ => isNameCharacter_of_mem hkey)
    (fun _ => isNameCharacter_of_mem hkey') (ends_word rfl _) (ends_word rfl _) h
  obtain ⟨hshapes, hrest⟩ := hshape (List.cons.inj (List.cons.inj hafter).2).2
  exact ⟨Prod.ext (String.toList_inj.mp hkeys) hshapes, hrest⟩

theorem propertyText_append_ne {property : String × Shape} (h : isName property.1 = true)
    (rest rest' : List Char) : propertyText property ++ rest ≠ '}' :: rest' := by
  intro heq
  cases hkey : property.1.toList with
  | nil => simp [isName, hkey] at h
  | cons c tail =>
      rw [propertyText, hkey] at heq
      have hc := isNameCharacter_of_mem h (hkey ▸ List.mem_cons_self)
      rw [(List.cons.inj heq).1] at hc
      exact absurd hc (by decide)

theorem inBraces_append_inj {properties properties' : List (String × Shape)}
    {rest rest' : List Char} (hkey : ∀ property ∈ properties, isName property.1 = true)
    (hkey' : ∀ property ∈ properties', isName property.1 = true)
    (hshape : ∀ part ∈ (object properties).parts, ∀ part' ∈ (object properties').parts,
      ∀ rest rest', Stops rest → Stops rest' →
      part.text.toList ++ rest = part'.text.toList ++ rest' → part = part' ∧ rest = rest')
    (h : inBraces properties ++ rest = inBraces properties' ++ rest') :
    properties = properties' ∧ rest = rest' := by
  simp only [inBraces, List.cons_append, List.append_assoc, List.nil_append, List.cons.injEq,
    true_and] at h
  cases properties with
  | nil =>
      cases properties' with
      | nil => exact ⟨rfl, (List.cons.inj h).2⟩
      | cons property' others' =>
          rw [intercalate_cons_append] at h
          have hfirst := hkey' property' List.mem_cons_self
          exact absurd h.symm (propertyText_append_ne hfirst _ rest)
  | cons property others =>
      cases properties' with
      | nil =>
          rw [intercalate_cons_append] at h
          have hfirst := hkey property List.mem_cons_self
          exact absurd h (propertyText_append_ne hfirst _ rest')
      | cons property' others' =>
          refine intercalate_append_inj delimits_properties (by simp) (by simp) ?_ h
          intro x hx y hy rest rest' hr hr' heq
          have hparts := hshape x.2 (List.mem_map_of_mem hx) y.2 (List.mem_map_of_mem hy)
          exact propertyText_append_inj (hkey x hx) (hkey' y hy) (hparts rest rest' hr hr') heq

inductive Alike : Shape → Shape → Prop where
  | boolean : Alike .boolean .boolean
  | string : Alike .string .string
  | number : Alike .number .number
  | reference (name : String) : Alike (.reference name) (.reference name)
  | literal (value value' : String) : Alike (.literal value) (.literal value')
  | list (element element' : Shape) : Alike (.list element) (.list element')
  | nullable (inner inner' : Shape) : Alike (.nullable inner) (.nullable inner')
  | union (members members' : List Shape) : Alike (.union members) (.union members')
  | intersection (members members' : List Shape) :
      Alike (.intersection members) (.intersection members')
  | unionFirst (members members' : List Shape) : Alike (.union members) (.intersection members')
  | unionSecond (members members' : List Shape) : Alike (.intersection members) (.union members')
  | object (properties properties' : List (String × Shape)) :
      Alike (.object properties) (.object properties')

/-- The word and the character after it tell the kind of a shape. -/
theorem alike_of_afterWord {shape other : Shape} {rest rest' : List Char}
    (h : shape.ReadableHere) (ho : other.ReadableHere) (hr : Stops rest) (hro : Stops rest')
    (hword : shape.word = other.word)
    (hafter : shape.afterWord ++ rest = other.afterWord ++ rest') : shape.Alike other := by
  have hname {name : String} (h : isName name = true) : name ≠ "" := by
    rintro rfl
    cases h
  cases shape with
  | boolean | string | number =>
      cases other with
      | boolean => first | exact .boolean | exact absurd hword (by decide)
      | string => first | exact .string | exact absurd hword (by decide)
      | number => first | exact .number | exact absurd hword (by decide)
      | reference name => exact absurd hword (by rintro rfl; simp [word, ReadableHere] at ho)
      | _ => simp [word] at hword
  | reference name =>
      cases other with
      | reference name' =>
          cases hword
          exact .reference name
      | boolean | string | number =>
          cases hword
          simp [ReadableHere] at h
      -- A list goes on with its argument, which tells it from a reference to the same name.
      | list element =>
          have hnext : rest = '<' :: (element.text.toList ++ ['>'] ++ rest') := hafter
          exact absurd rfl (hr '<' (by simp [hnext])).2
      | _ => exact absurd hword (hname h.1)
  | list element =>
      cases other with
      | list element' => exact .list element element'
      | reference name =>
          have hnext : '<' :: (element.text.toList ++ ['>'] ++ rest) = rest' := hafter
          exact absurd rfl (hro '<' (by simp [← hnext])).2
      | _ => simp [word] at hword
  | literal value =>
      cases other with
      | literal value' => exact .literal value value'
      | reference name => exact absurd hword.symm (hname ho.1)
      | boolean | string | number | list => simp [word] at hword
      | _ => simp [afterWord, Json.toList_quote, inParentheses, inBraces] at hafter
  | nullable inner =>
      cases other with
      | nullable inner' => exact .nullable inner inner'
      | reference name => exact absurd hword.symm (hname ho.1)
      | boolean | string | number | list => simp [word] at hword
      | _ => simp [afterWord, Json.toList_quote, inParentheses, inBraces] at hafter
  | union members =>
      cases other with
      | union members' => exact .union members members'
      | intersection members' => exact .unionFirst members members'
      | reference name => exact absurd hword.symm (hname ho.1)
      | boolean | string | number | list => simp [word] at hword
      | _ => simp [afterWord, Json.toList_quote, inParentheses, inBraces] at hafter
  | intersection members =>
      cases other with
      | union members' => exact .unionSecond members members'
      | intersection members' => exact .intersection members members'
      | reference name => exact absurd hword.symm (hname ho.1)
      | boolean | string | number | list => simp [word] at hword
      | _ => simp [afterWord, Json.toList_quote, inParentheses, inBraces] at hafter
  | object properties =>
      cases other with
      | object properties' => exact .object properties properties'
      | reference name => exact absurd hword.symm (hname ho.1)
      | boolean | string | number | list => simp [word] at hword
      | _ => simp [afterWord, Json.toList_quote, inParentheses, inBraces] at hafter

/-- A text that begins with the text of a shape begins with the text of no other one. -/
theorem text_append_inj {shape other : Shape} {rest rest' : List Char} (h : shape.Readable)
    (ho : other.Readable) (hr : Stops rest) (hr' : Stops rest')
    (heq : shape.text.toList ++ rest = other.text.toList ++ rest') :
    shape = other ∧ rest = rest' := by
  induction shape using induction generalizing other rest rest' with
  | step shape ih =>
      obtain ⟨hhere, hparts⟩ := readable_iff.mp h
      obtain ⟨hohere, hoparts⟩ := readable_iff.mp ho
      have hpart : ∀ part ∈ shape.parts, ∀ part' ∈ other.parts, ∀ rest rest', Stops rest →
          Stops rest' → part.text.toList ++ rest = part'.text.toList ++ rest' →
          part = part' ∧ rest = rest' := fun part hp part' hp' _ _ =>
        ih part hp (hparts part hp) (hoparts part' hp')
      obtain ⟨hword, hafter⟩ := split_of_text_append hhere hohere hr hr' heq
      cases alike_of_afterWord hhere hohere hr hr' hword hafter with
      | boolean | string | number | reference => exact ⟨rfl, hafter⟩
      | literal value value' =>
          obtain ⟨rfl, hrest⟩ := Json.quote_append_inj hafter
          exact ⟨rfl, hrest⟩
      | list element element' =>
          simp only [afterWord, List.cons_append, List.append_assoc, List.cons.injEq, true_and,
            List.nil_append] at hafter
          obtain ⟨rfl, hrest⟩ := hpart element (List.mem_singleton_self _) element'
            (List.mem_singleton_self _) _ _ (stops_cons.mpr (by decide))
            (stops_cons.mpr (by decide)) hafter
          exact ⟨rfl, (List.cons.inj hrest).2⟩
      | nullable inner inner' =>
          obtain ⟨rfl, hrest⟩ := hpart inner (List.mem_singleton_self _) inner'
            (List.mem_singleton_self _) _ _ hr hr' (List.cons.inj hafter).2
          exact ⟨rfl, hrest⟩
      | union members members' =>
          obtain ⟨-, rfl, hrest⟩ :=
            inParentheses_append_inj (by decide) hhere hohere hpart hafter
          exact ⟨rfl, hrest⟩
      | intersection members members' =>
          obtain ⟨-, rfl, hrest⟩ :=
            inParentheses_append_inj (by decide) hhere hohere hpart hafter
          exact ⟨rfl, hrest⟩
      | unionFirst members members' =>
          have hseparator :=
            (inParentheses_append_inj (by decide) hhere hohere hpart hafter).1
          exact absurd hseparator (by decide)
      | unionSecond members members' =>
          have hseparator :=
            (inParentheses_append_inj (by decide) hhere hohere hpart hafter).1
          exact absurd hseparator (by decide)
      | object properties properties' =>
          obtain ⟨rfl, hrest⟩ := inBraces_append_inj hhere hohere hpart hafter
          exact ⟨rfl, hrest⟩

/-- Printing is unambiguous: shapes as the grammar of Flow types has them, with any strings for
literals, have the same text only if they are the same. -/
theorem text_eq_text_iff {shape other : Shape} (h : shape.Readable) (ho : other.Readable) :
    shape.text = other.text ↔ shape = other := by
  constructor
  · intro heq
    have hsame : shape.text.toList ++ [] = other.text.toList ++ [] := by rw [heq]
    exact (text_append_inj h ho stops_nil stops_nil hsame).1
  · intro heq
    rw [heq]

def oneLiteral : Shape :=
  .union [.literal "x\" | \"y", .reference "Array"]

def twoLiterals : Shape :=
  .union [.literal "x", .literal "y", .reference "Array"]

theorem text_eq_text_iff_oneLiteral :
    oneLiteral.Readable ∧ twoLiterals.Readable ∧ oneLiteral.text ≠ twoLiterals.text := by
  have hone : oneLiteral.Readable := by decide
  have htwo : twoLiterals.Readable := by decide
  refine ⟨hone, htwo, ?_⟩
  rw [ne_eq, text_eq_text_iff hone htwo]
  decide

-- By one member alone, a union cannot be told from an intersection.
example : (union [.string]).text = (intersection [.string]).text := rfl

end Shape
end QueryShape
