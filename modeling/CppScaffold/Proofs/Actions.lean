import CppScaffold.Workspace

/-!
# Runs of actions

A run of an action is taken apart with `execute_bind_ok`, part by part, until only requests to the source remain.
-/

namespace CppScaffold

/-- An outcome is known from its value alone, for which equality can be decided. -/
theorem ok_of_toOption {ε α : Type} {x : Except ε α} {a : α} (h : x.toOption = some a) : x = .ok a := by
  cases x with
  | error e => cases h
  | ok b => rw [Option.some.inj h]

theorem exists_ok_of_bind {α β : Type} {x : Outcome α} {f : α → Outcome β} {b : β} (h : x >>= f = .ok b) :
    ∃ a, x = .ok a ∧ f a = .ok b := by
  cases x with
  | error e => cases h
  | ok a => exact ⟨a, rfl, h⟩

theorem exists_ok_of_any {α : Type} {x : Outcome α} {p : α → Bool} (h : x.toOption.any p) : ∃ a, x = .ok a ∧ p a := by
  cases x with
  | error e => cases h
  | ok a => exact ⟨a, rfl, h⟩

theorem exists_run_of_fst {α σ : Type} {x : Outcome α × σ} {a : α} (h : x.1 = .ok a) : ∃ s, x = (.ok a, s) :=
  ⟨x.2, Prod.ext h rfl⟩

/-- A source of documents that knows no symbols and no links. -/
def SymbolSource.bare (read : Text → Outcome TextDocument) : SymbolSource where
  read := read
  symbols _ := .ok []
  definitions _ _ := .ok []
  declarations _ _ := .ok []
  inWorkspace _ := .ok true

namespace Action

variable {ρ σ α β : Type} {w : ρ} {s s' : σ} {a a' : Action ρ σ α} {f : α → Action ρ σ β} {b : β}

@[simp]
theorem execute_pure (x : α) : (pure x : Action ρ σ α).execute w s = (.ok x, s) := rfl

@[simp]
theorem execute_throw (e : Fault) : (throw e : Action ρ σ α).execute w s = (.error e, s) := rfl

@[simp]
theorem execute_lift (x : Outcome α) : (liftM x : Action ρ σ α).execute w s = (x, s) := rfl

@[simp]
theorem execute_read : (read : Action ρ σ ρ).execute w s = (.ok w, s) := rfl

@[simp]
theorem execute_get : (get : Action ρ σ σ).execute w s = (.ok s, s) := rfl

@[simp]
theorem execute_set (s' : σ) : (set s' : Action ρ σ PUnit).execute w s = (.ok ⟨⟩, s') := rfl

@[simp]
theorem execute_modify (g : σ → σ) : (modify g : Action ρ σ PUnit).execute w s = (.ok ⟨⟩, g s) := rfl

/-- The second of two runs begins in the state that the first one left, unless that failed. -/
theorem execute_bind (a : Action ρ σ α) (f : α → Action ρ σ β) :
    (a >>= f).execute w s = match a.execute w s with
      | (.ok x, s₁) => (f x).execute w s₁
      | (.error e, s₁) => (.error e, s₁) := by
  change ExceptT.bind (a w) (fun x => f x w) s = _
  simp only [ExceptT.bind, ExceptT.mk, bind, StateT.bind, ExceptT.bindCont]
  change _ = match a w s with
      | (.ok x, s₁) => f x w s₁
      | (.error e, s₁) => (.error e, s₁)
  rcases a w s with ⟨x | x, s₁⟩ <;> rfl

theorem execute_bind_ok :
    (a >>= f).execute w s = (.ok b, s') ↔ ∃ x s₁, a.execute w s = (.ok x, s₁) ∧ (f x).execute w s₁ = (.ok b, s') := by
  rw [execute_bind]
  rcases a.execute w s with ⟨e | x, s₁⟩
  · simp
  · constructor
    · intro h
      exact ⟨x, s₁, rfl, h⟩
    · rintro ⟨y, s₂, hy, h⟩
      cases hy
      exact h

theorem execute_ite_bind_ok {c : Prop} [Decidable c] :
    (if c then a >>= f else a' >>= f).execute w s = (.ok b, s') ↔
      ∃ x s₁, (if c then a else a').execute w s = (.ok x, s₁) ∧ (f x).execute w s₁ = (.ok b, s') := by
  split
  · exact execute_bind_ok
  · exact execute_bind_ok

end Action

namespace CodeAction

variable {α : Type} {w : Workspace} {s : ActionState}

@[simp]
theorem execute_refuse (cause : ActionError) : (refuse cause : CodeAction α).execute w s = (.error (.action cause), s) :=
  rfl

@[simp]
theorem execute_source : source.execute w s = (.ok w.source, s) := rfl

@[simp]
theorem execute_settings : settings.execute w s = (.ok w.settings, s) := rfl

end CodeAction

namespace OpenDocument

open Action CodeAction

variable {w : Workspace} {s s' : ActionState} {d : OpenDocument}

/-- Symbols that are neither loaded nor remembered in a cache are asked for and then loaded. -/
theorem execute_symbols {infos : List SymbolInfo} (hloaded : s.loaded.lookup d.opening = none)
    (hcache : s.cache = none) (hsource : w.source.symbols d.uri = .ok infos) :
    let symbols := Symbol.ofInfos (infos.mergeSort fun a b => a.range.listedBefore b.range)
    d.symbols.execute w s = (.ok symbols, { s with requests := s.requests + 1, loaded := (d.opening, symbols) :: s.loaded }) := by
  simp only [symbols, cachedSymbols, requestedSymbols, execute_bind, execute_get, hloaded, hcache, execute_pure,
    execute_modify, execute_source, execute_lift, hsource]

theorem entityAt?_ok {p : Position} {found : Option Entity} (h : (d.entityAt? p).execute w s = (.ok found, s')) :
    ∃ symbols, d.symbols.execute w s = (.ok symbols, s') ∧
      found = (ScopedSymbol.innermostIn p [] symbols).map (⟨d, ·⟩) := by
  rw [entityAt?, execute_bind_ok] at h
  obtain ⟨symbols, s₁, hsymbols, h⟩ := h
  cases h
  exact ⟨symbols, hsymbols, rfl⟩

theorem document_of_entityAt? {p : Position} {e : Entity}
    (h : (d.entityAt? p).execute w s = (.ok (some e), s')) : e.document = d := by
  obtain ⟨symbols, _, he⟩ := entityAt?_ok h
  obtain ⟨node, _, rfl⟩ := Option.map_eq_some_iff.mp he.symm
  rfl

end OpenDocument

end CppScaffold
