import NetgameFormal.Runs

/-!
# Machines made of parts

A step of the whole is one step of a part or leaves the part alone, so that a
run of the whole has a run of each part in it. What the parts send each other
lies on wires, where nothing is lost, added or reordered.
-/

set_option autoImplicit false

namespace NetgameFormal

universe u v w u' v' w' x

section
variable {σ : Type u} {ι : Type v} {ω : Type w} {σ' : Type u'} {ι' : Type v'} {ω' : Type w'}
variable {step : σ → ι → Option (σ × List ω)} {ok : σ → ι → Prop} {s₀ s : σ}
variable {step' : σ' → ι' → Option (σ' × List ω')} {ok' : σ' → ι' → Prop}
variable {tr : List (Record σ ι ω)}

theorem Exec.admitted {ok' : σ → ι → Prop} (h : Exec step ok s₀ tr s)
    (hallowed : ∀ r ∈ tr, ok' r.pre r.input) : Exec step ok' s₀ tr s := by
  induction h with
  | nil => exact .nil
  | @snoc tr s s' i o _ _ hstep ih =>
    apply Exec.snoc (ih fun r hr => hallowed r (List.mem_append_left _ hr)) _ hstep
    exact hallowed ⟨s, i, o, s'⟩ (by simp)

/-- A part of the machine `step` that runs `step'`. -/
structure Part (step : σ → ι → Option (σ × List ω)) (step' : σ' → ι' → Option (σ' × List ω')) where
  state : σ → σ'
  input : ι → Option ι'
  output : ω → Option ω'
  moves : ∀ {s i j s' o}, step s i = some (s', o) → input i = some j →
    step' (state s) j = some (state s', o.filterMap output)
  rests : ∀ {s i s' o}, step s i = some (s', o) → input i = none →
    state s' = state s ∧ o.filterMap output = []

def Part.record (P : Part step step') (r : Record σ ι ω) : Option (Record σ' ι' ω') :=
  (P.input r.input).map fun j => ⟨P.state r.pre, j, r.output.filterMap P.output, P.state r.post⟩

def Part.records (P : Part step step') (tr : List (Record σ ι ω)) : List (Record σ' ι' ω') :=
  tr.filterMap P.record

theorem Part.records_snoc (P : Part step step') (tr : List (Record σ ι ω)) (r : Record σ ι ω) :
    P.records (tr ++ [r]) = P.records tr ++ (P.record r).toList := by
  cases hr : P.record r <;> simp [Part.records, hr]

theorem Part.records_inputs (P : Part step step') (tr : List (Record σ ι ω)) :
    (P.records tr).map Record.input = (tr.map Record.input).filterMap P.input := by
  rw [Part.records, List.map_filterMap, List.filterMap_map]
  congr 1
  funext r
  cases hi : P.input r.input <;> simp [Part.record, hi]

theorem Part.run (P : Part step step')
    (hok : ∀ {s i j}, ok s i → P.input i = some j → ok' (P.state s) j)
    (h : Exec step ok s₀ tr s) : Exec step' ok' (P.state s₀) (P.records tr) (P.state s) := by
  induction h with
  | nil => exact .nil
  | @snoc tr s s' i o _ hallowed hstep ih =>
    rw [P.records_snoc]
    cases hi : P.input i with
    | none =>
      obtain ⟨hstate, -⟩ := P.rests hstep hi
      have hrecord : P.record ⟨s, i, o, s'⟩ = none := by simp [Part.record, hi]
      rw [hrecord, hstate, Option.toList_none, List.append_nil]
      exact ih
    | some j =>
      have hrecord : P.record ⟨s, i, o, s'⟩ =
          some ⟨P.state s, j, o.filterMap P.output, P.state s'⟩ := by simp [Part.record, hi]
      rw [hrecord, Option.toList_some]
      exact .snoc ih (hok hallowed hi) (P.moves hstep hi)

/-- What the part emits in its run is what the whole emits of it. -/
theorem Part.flatMap_output (P : Part step step') (h : Exec step ok s₀ tr s) :
    tr.flatMap (fun r => r.output.filterMap P.output) = outputsOf (P.records tr) := by
  induction h with
  | nil => rfl
  | @snoc tr s s' i o _ _ hstep ih =>
    rw [P.records_snoc, List.flatMap_append, ih]
    cases hi : P.input i with
    | none =>
      obtain ⟨-, houtput⟩ := P.rests hstep hi
      simp [Part.record, hi, houtput, outputsOf]
    | some j => simp [Part.record, hi, outputsOf]

/-- Bytes, or other things, on their way between parts. -/
structure Wire (step : σ → ι → Option (σ × List ω)) (ok : σ → ι → Prop) (α : Type x) where
  content : σ → List α
  put : Record σ ι ω → List α
  taken : Record σ ι ω → List α
  carries : ∀ {s i s' o}, ok s i → step s i = some (s', o) →
    content s ++ put ⟨s, i, o, s'⟩ = taken ⟨s, i, o, s'⟩ ++ content s'

variable {α : Type x}

theorem Wire.run (W : Wire step ok α) (h : Exec step ok s₀ tr s) :
    W.content s₀ ++ tr.flatMap W.put = tr.flatMap W.taken ++ W.content s := by
  induction h with
  | nil => simp
  | @snoc tr s s' i o _ hallowed hstep ih =>
    have hcarries := W.carries hallowed hstep
    simp only [List.flatMap_append, List.flatMap_cons, List.flatMap_nil, List.append_nil]
    rw [← List.append_assoc, ih, List.append_assoc, hcarries, List.append_assoc]

theorem Wire.in_order (W : Wire step ok α) (hempty : W.content s₀ = [])
    (h : Exec step ok s₀ tr s) : tr.flatMap W.taken <+: tr.flatMap W.put := by
  have hrun := W.run h
  rw [hempty, List.nil_append] at hrun
  exact ⟨_, hrun.symm⟩

theorem Wire.all_taken (W : Wire step ok α) (hempty : W.content s₀ = []) (hquiet : W.content s = [])
    (h : Exec step ok s₀ tr s) : tr.flatMap W.taken = tr.flatMap W.put := by
  have hrun := W.run h
  rw [hempty, List.nil_append, hquiet, List.append_nil] at hrun
  exact hrun.symm

end

end NetgameFormal
