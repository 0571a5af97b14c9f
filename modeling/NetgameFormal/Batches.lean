import NetgameFormal.Runs

/-!
# Inputs that arrive in batches

`runBatch` feeds a machine a whole list of inputs and collects its actions. A
batch that runs through is a piece of an execution, so a program that queues
its inputs and works the queue off now and then executes the machine itself.
-/

set_option autoImplicit false

namespace NetgameFormal

universe u v w

variable {σ : Type u} {ι : Type v} {ω : Type w}

def runBatch (step : σ → ι → Option (σ × List ω)) : σ → List ι → Option (σ × List ω)
  | s, [] => some (s, [])
  | s, i :: is =>
    match step s i with
    | none => none
    | some (s', o) => (runBatch step s' is).map fun rest => (rest.1, o ++ rest.2)

instance decidableAlong (P : σ → ι → Prop) (step : σ → ι → Option (σ × List ω))
    [∀ s i, Decidable (P s i)] : ∀ s is, Decidable (Along P step s is)
  | _, [] => isTrue trivial
  | s, i :: is =>
    match h : step s i with
    | none => decidable_of_iff (P s i) (by simp [Along, h])
    | some (s', o) =>
      have : Decidable (Along P step s' is) := decidableAlong P step s' is
      decidable_of_iff (P s i ∧ Along P step s' is) (by simp [Along, h])

variable {step : σ → ι → Option (σ × List ω)} {ok : σ → ι → Prop} {s₀ s s' : σ}

theorem runBatch_cons {i : ι} {is : List ι} {o : List ω} (h : step s i = some (s', o)) :
    runBatch step s (i :: is) = (runBatch step s' is).map fun rest => (rest.1, o ++ rest.2) := by
  simp only [runBatch, h]

theorem runBatch_stopped {i : ι} {is : List ι} (h : step s i = none) :
    runBatch step s (i :: is) = none := by
  simp only [runBatch, h]

theorem outputsOf_append (tr tr' : List (Record σ ι ω)) :
    outputsOf (tr ++ tr') = outputsOf tr ++ outputsOf tr' :=
  List.flatMap_append

namespace Exec

theorem weaken {ok' : σ → ι → Prop} (himp : ∀ {s i}, ok s i → ok' s i)
    {tr : List (Record σ ι ω)} (h : Exec step ok s₀ tr s) : Exec step ok' s₀ tr s := by
  induction h with
  | nil => exact .nil
  | snoc _ hok hstep ih => exact .snoc ih (himp hok) hstep

/-- An admitted batch that runs through extends an execution by one record for each input. -/
theorem batch {is : List ι} {tr : List (Record σ ι ω)} {o : List ω} (h : Exec step ok s₀ tr s)
    (hok : Along ok step s is) (hrun : runBatch step s is = some (s', o)) :
    ∃ tr', Exec step ok s₀ (tr ++ tr') s' ∧ tr'.map Record.input = is ∧ outputsOf tr' = o := by
  induction is generalizing s tr o with
  | nil =>
    obtain ⟨rfl, rfl⟩ := Prod.mk.inj (Option.some.inj hrun)
    refine ⟨[], ?_, rfl, rfl⟩
    rw [List.append_nil]
    exact h
  | cons i is ih =>
    obtain ⟨hi, hrest⟩ := hok
    cases hstep : step s i with
    | none => simp [runBatch_stopped hstep] at hrun
    | some so =>
      obtain ⟨s₁, o₁⟩ := so
      rw [runBatch_cons hstep, Option.map_eq_some_iff] at hrun
      obtain ⟨rest, hrest', hpair⟩ := hrun
      obtain ⟨rfl, rfl⟩ := Prod.mk.inj hpair
      obtain ⟨tr', hexec, hinputs, houtputs⟩ :=
        ih (.snoc h hi hstep) (hrest s₁ o₁ hstep) hrest'
      refine ⟨⟨s, i, o₁, s₁⟩ :: tr', ?_, ?_, ?_⟩
      · rw [List.append_assoc] at hexec
        exact hexec
      · rw [List.map_cons, hinputs]
      · rw [← houtputs]
        rfl

end Exec

/-- A machine that answers every admitted input runs every admitted batch through. -/
theorem runBatch_total (Inv : σ → Prop)
    (answers : ∀ {s i}, Inv s → ok s i → ∃ s' o, step s i = some (s', o) ∧ Inv s')
    {is : List ι} (h : Inv s) (hok : Along ok step s is) :
    ∃ s' o, runBatch step s is = some (s', o) ∧ Inv s' := by
  induction is generalizing s with
  | nil => exact ⟨s, [], rfl, h⟩
  | cons i is ih =>
    obtain ⟨hi, hrest⟩ := hok
    obtain ⟨s₁, o₁, hstep, hinv⟩ := answers h hi
    obtain ⟨s₂, o₂, hrun, hinv'⟩ := ih hinv (hrest s₁ o₁ hstep)
    refine ⟨s₂, o₁ ++ o₂, ?_, hinv'⟩
    rw [runBatch_cons hstep, hrun, Option.map_some]

end NetgameFormal
