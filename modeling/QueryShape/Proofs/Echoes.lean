import QueryShape.Flattened
import QueryShape.Proofs.Repeats

/-!
# Selections with repeated parts

A selection echoes another if it is made from it by repeating blocks of fields, of branches and of
spreads, here and in the selections inside.
-/

namespace QueryShape

variable {σ τ ρ : Type}

inductive OutputCore.Agrees (R : σ → τ → Prop) : OutputCore σ → OutputCore τ → Prop where
  | scalar (name : String) : Agrees R (.scalar name) (.scalar name)
  | enum (values : List String) : Agrees R (.enum values) (.enum values)
  | typename : Agrees R .typename .typename
  | selection {nested : σ} {nested' : τ} (h : R nested nested') :
      Agrees R (.selection nested) (.selection nested')

inductive Field.Agrees (R : σ → τ → Prop) : Field σ → Field τ → Prop where
  | intro (key : String) (wrapping : List Wrapper) {core : OutputCore σ} {core' : OutputCore τ}
      (h : core.Agrees R core') : Agrees R ⟨key, wrapping, core⟩ ⟨key, wrapping, core'⟩

theorem Field.Agrees.imp {R S : σ → τ → Prop} {field : Field σ} {field' : Field τ}
    (h : field.Agrees R field')
    (hR : ∀ nested nested', field.nested? = some nested → R nested nested' → S nested nested') :
    field.Agrees S field' := by
  obtain ⟨key, wrapping, hc⟩ := h
  refine ⟨key, wrapping, ?_⟩
  cases hc with
  | scalar name => exact .scalar name
  | enum values => exact .enum values
  | typename => exact .typename
  | selection h => exact .selection (hR _ _ rfl h)

theorem Field.Agrees.refl {R : σ → σ → Prop} (field : Field σ)
    (h : ∀ nested, field.nested? = some nested → R nested nested) : field.Agrees R field := by
  obtain ⟨key, wrapping, core⟩ := field
  refine ⟨key, wrapping, ?_⟩
  cases core with
  | scalar name => exact .scalar name
  | enum values => exact .enum values
  | typename => exact .typename
  | selection nested => exact .selection (h nested rfl)

namespace Selection

theorem induction {motive : Selection ρ → Prop}
    (step : ∀ selection : Selection ρ,
      (∀ field ∈ selection.fields, ∀ nested, field.nested? = some nested → motive nested) →
      (∀ branch ∈ selection.branches, motive branch) → motive selection)
    (selection : Selection ρ) : motive selection := by
  induction hn : selection.count using Nat.strongRecOn generalizing selection with
  | ind n ih =>
      subst hn
      have hcount := count_eq selection
      apply step
      · intro field hf nested hn
        have := count_le_countFields hf hn
        exact ih nested.count (by omega) nested rfl
      · intro branch hb
        have := count_le_countBranches hb
        exact ih branch.count (by omega) branch rfl

/-- The second selection is made from the first by repeating blocks of its parts, at any depth. -/
inductive Echoes : Selection ρ → Selection ρ → Prop where
  | intro {on : String} {possible : List String}
      {fields replaced fields' : List (Field (Selection ρ))}
      {branches exchanged branches' : List (Selection ρ)} {spreads spreads' : List ρ}
      (replace : List.Forall₂ (Field.Agrees Echoes) fields replaced)
      (repeatFields : Repeats replaced fields')
      (exchange : List.Forall₂ Echoes branches exchanged)
      (repeatBranches : Repeats exchanged branches')
      (repeatSpreads : Repeats spreads spreads') :
      Echoes ⟨on, possible, fields, branches, spreads⟩ ⟨on, possible, fields', branches', spreads'⟩

theorem echoes_iff {selection selection' : Selection ρ} : selection.Echoes selection' ↔
    selection.on = selection'.on ∧ selection.possible = selection'.possible ∧
      RepeatsUpTo (Field.Agrees Echoes) selection.fields selection'.fields ∧
      RepeatsUpTo Echoes selection.branches selection'.branches ∧
      Repeats selection.spreads selection'.spreads := by
  constructor
  · rintro ⟨hf, hrf, hb, hrb, hs⟩
    exact ⟨rfl, rfl, ⟨_, hf, hrf⟩, ⟨_, hb, hrb⟩, hs⟩
  · obtain ⟨on, possible, fields, branches, spreads⟩ := selection
    obtain ⟨on', possible', fields', branches', spreads'⟩ := selection'
    rintro ⟨hon, hpossible, ⟨replaced, hf, hrf⟩, ⟨exchanged, hb, hrb⟩, hs⟩
    cases hon
    cases hpossible
    exact ⟨hf, hrf, hb, hrb, hs⟩

theorem Echoes.refl (selection : Selection ρ) : selection.Echoes selection := by
  induction selection using Selection.induction with
  | step selection ihNested ihBranch =>
      refine echoes_iff.mpr ⟨rfl, rfl, ⟨_, ?_, .refl _⟩, ⟨_, ?_, .refl _⟩, .refl _⟩
      · exact List.forall₂_same.mpr fun field hf => .refl field (ihNested field hf)
      · exact List.forall₂_same.mpr ihBranch

end Selection
end QueryShape
