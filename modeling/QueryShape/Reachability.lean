import QueryShape.Counting

/-!
# Reachability in a finite graph

A graph on `n` nodes is a matrix of truth values. Its closure is computed in place, by sweeps that
are repeated until one changes nothing.
-/

namespace QueryShape

/-- A directed graph on `n` nodes; row `i` holds the nodes that `i` points to. -/
abbrev Graph (n : Nat) := Vector (Vector Bool n) n

namespace Graph

variable {n : Nat}

def pointsTo (graph : Graph n) (i j : Fin n) : Bool := graph[i][j]

/-- Joins row `j` into row `i` if `i` points to `j`. -/
def joinRow (graph : Graph n) (i j : Fin n) : Graph n :=
  if graph.pointsTo i j then graph.set i (Vector.zipWith (· || ·) graph[i] graph[j]) else graph

def extendRow (graph : Graph n) (i : Fin n) : Graph n :=
  (List.finRange n).foldl (fun graph j => graph.joinRow i j) graph

/-- Extends each row in turn; a row sees the rows that were extended before it. -/
def sweep (graph : Graph n) : Graph n :=
  (List.finRange n).foldl extendRow graph

def Within (g h : Graph n) : Prop :=
  ∀ i j, g.pointsTo i j = true → h.pointsTo i j = true

theorem Within.refl (g : Graph n) : Within g g := fun _ _ h => h

theorem Within.trans {f g h : Graph n} (hfg : Within f g) (hgh : Within g h) : Within f h :=
  fun i j hf => hgh i j (hfg i j hf)

theorem pointsTo_joinRow (g : Graph n) (i j k l : Fin n) :
    (g.joinRow i j).pointsTo k l =
      (g.pointsTo k l || (k == i && g.pointsTo i j && g.pointsTo j l)) := by
  unfold joinRow
  split
  · next h =>
    by_cases hk : k = i
    · subst hk
      simp [pointsTo] at h ⊢
      simp [h]
    · have hk' : (i : Nat) ≠ k := fun e => hk (Fin.ext e.symm)
      simp [pointsTo, hk, hk']
  · next h => simp [h]

theorem within_joinRow (g : Graph n) (i j : Fin n) : Within g (g.joinRow i j) := by
  intro k l h
  simp [pointsTo_joinRow, h]

theorem within_foldl {α : Type} {f : Graph n → α → Graph n} (h : ∀ g a, Within g (f g a))
    (g : Graph n) (l : List α) : Within g (l.foldl f g) := by
  induction l generalizing g with
  | nil => exact .refl g
  | cons a l ih => exact (h g a).trans (ih (f g a))

theorem within_sweep (g : Graph n) : Within g g.sweep :=
  within_foldl (fun g i => within_foldl (fun g j => within_joinRow g i j) g _) g _

theorem ext_pointsTo {g h : Graph n} (e : ∀ i j, g.pointsTo i j = h.pointsTo i j) : g = h := by
  apply Vector.ext
  intro i hi
  apply Vector.ext
  intro j hj
  exact e ⟨i, hi⟩ ⟨j, hj⟩

def pairs (n : Nat) : List (Fin n × Fin n) :=
  (List.finRange n).flatMap fun i => (List.finRange n).map fun j => (i, j)

def missing (graph : Graph n) : Nat :=
  (pairs n).countP fun p => !graph.pointsTo p.1 p.2

theorem missing_lt {g h : Graph n} (hw : Within g h) (hne : h ≠ g) : h.missing < g.missing := by
  have : ∃ i j, g.pointsTo i j = false ∧ h.pointsTo i j = true := by
    apply Classical.byContradiction
    intro hno
    apply hne
    apply ext_pointsTo
    intro i j
    cases hg : g.pointsTo i j with
    | true => exact hw i j hg
    | false =>
        cases hh : h.pointsTo i j with
        | true => exact absurd ⟨i, j, hg, hh⟩ hno
        | false => rfl
  obtain ⟨i, j, hg, hh⟩ := this
  have himp : ∀ p : Fin n × Fin n,
      (!h.pointsTo p.1 p.2) = true → (!g.pointsTo p.1 p.2) = true := by
    intro p hp
    cases hgp : g.pointsTo p.1 p.2 with
    | true => simp [hw _ _ hgp] at hp
    | false => rfl
  exact countP_lt_of_imp (a := (i, j)) himp (by simp [pairs]) (by simp [hg]) (by simp [hh])

/-- Sweeps until nothing changes. -/
def closure (graph : Graph n) : Graph n :=
  if graph.sweep = graph then graph else graph.sweep.closure
termination_by graph.missing
decreasing_by
  next h => exact missing_lt (within_sweep graph) h

def degree (graph : Graph n) (i : Fin n) : Nat := graph[i].toList.count true

end Graph
end QueryShape
