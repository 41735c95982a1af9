import CppScaffold.Proofs.Actions

/-!
# What actions know of a document

Symbols of an opened document stay loaded. An action that looks at such documents only answers the same in all states
in which they show the same symbols.
-/

namespace CppScaffold

open Text Action

variable {α β : Type} {w : Workspace} {s s' : ActionState}

namespace CodeAction

/-! ## Answers that do not depend on the state -/

/-- In all states with a property the action answers with the given outcome, and keeps the property. -/
def Answers (I : ActionState → Prop) (w : Workspace) (a : CodeAction α) (r : Outcome α) : Prop :=
  ∀ s, I s → ∃ s', a.execute w s = (r, s') ∧ I s'

/-- In all states with a property the action answers the same, and keeps the property. -/
def Determined (I : ActionState → Prop) (w : Workspace) (a : CodeAction α) : Prop := ∃ r, Answers I w a r

variable {I : ActionState → Prop} {a : CodeAction α} {f : α → CodeAction β} {r : Outcome α}

theorem Answers.outcome (h : Answers I w a r) (hs : I s) : (a.execute w s).1 = r := by
  obtain ⟨_, hrun, -⟩ := h s hs
  rw [hrun]

theorem Answers.eq {r' : Outcome α} (h : Answers I w a r) (h' : Answers I w a r') (hs : I s) : r = r' :=
  (h.outcome hs).symm.trans (h'.outcome hs)

theorem Determined.answers (h : Determined I w a) (hs : I s) : Answers I w a (a.execute w s).1 := by
  obtain ⟨r, hr⟩ := h
  rwa [hr.outcome hs]

theorem Determined.of_execute (h : Determined I w a) (hs : I s) (hrun : a.execute w s = (r, s')) :
    Answers I w a r ∧ I s' := by
  obtain ⟨r', hr'⟩ := h
  obtain ⟨s₁, hrun', hs₁⟩ := hr' s hs
  rw [hrun] at hrun'
  cases hrun'
  exact ⟨hr', hs₁⟩

theorem Answers.pure (x : α) : Answers I w (pure x) (.ok x) := fun s hs => ⟨s, rfl, hs⟩

theorem Answers.bind {x : α} {r : Outcome β} (ha : Answers I w a (.ok x)) (hf : Answers I w (f x) r) :
    Answers I w (a >>= f) r := by
  intro s hs
  obtain ⟨s₁, hrun, hs₁⟩ := ha s hs
  obtain ⟨s₂, hrun', hs₂⟩ := hf s₁ hs₁
  refine ⟨s₂, ?_, hs₂⟩
  rwa [execute_bind, hrun]

theorem Answers.bind_error (f : α → CodeAction β) {e : Fault} (ha : Answers I w a (.error e)) :
    Answers I w (a >>= f) (.error e) := by
  intro s hs
  obtain ⟨s₁, hrun, hs₁⟩ := ha s hs
  exact ⟨s₁, by rw [execute_bind, hrun], hs₁⟩

theorem Determined.pure (x : α) : Determined I w (pure x) := ⟨_, .pure x⟩

theorem Determined.lift (x : Outcome α) : Determined I w (liftM x : CodeAction α) := ⟨x, fun s hs => ⟨s, rfl, hs⟩⟩

theorem Determined.source : Determined I w source := ⟨.ok w.source, fun s hs => ⟨s, rfl, hs⟩⟩

theorem Determined.settings : Determined I w settings := ⟨.ok w.settings, fun s hs => ⟨s, rfl, hs⟩⟩

theorem Determined.bind (ha : Determined I w a) (hf : ∀ x, Determined I w (f x)) : Determined I w (a >>= f) := by
  obtain ⟨e | x, ha⟩ := ha
  · exact ⟨_, ha.bind_error f⟩
  · obtain ⟨r, hr⟩ := hf x
    exact ⟨r, ha.bind hr⟩

theorem Determined.mapM {f : α → CodeAction β} (hf : ∀ x, Determined I w (f x)) (xs : List α) :
    Determined I w (xs.mapM f) := by
  induction xs with
  | nil => exact .pure []
  | cons x xs ih =>
    rw [List.mapM_cons]
    exact .bind (hf x) fun _ => .bind ih fun _ => .pure _

theorem filterM_ok {g : α → CodeAction Bool} {xs ys : List α} (hs : I s) (hg : ∀ x, Determined I w (g x))
    (h : (xs.filterM g).execute w s = (.ok ys, s')) :
    I s' ∧ ∃ keep : α → Bool, ys = xs.filter keep ∧ ∀ x ∈ xs, Answers I w (g x) (.ok (keep x)) := by
  obtain ⟨r, hr⟩ : ∃ r : α → Outcome Bool, ∀ x, Answers I w (g x) (r x) :=
    ⟨fun x => (hg x).choose, fun x => (hg x).choose_spec⟩
  suffices haux : ∀ {acc zs s s'}, I s → (xs.filterAuxM g acc).execute w s = (.ok zs, s') →
      I s' ∧ zs = (xs.filter fun x => (r x).toOption.getD false).reverse ++ acc ∧ ∀ x ∈ xs, ∃ b, r x = .ok b by
    rw [List.filterM, execute_bind_ok] at h
    obtain ⟨zs, s₁, haux', h⟩ := h
    obtain ⟨hs₁, rfl, hall⟩ := haux hs haux'
    cases h
    refine ⟨hs₁, fun x => (r x).toOption.getD false, by simp, fun x hx => ?_⟩
    obtain ⟨b, hb⟩ := hall x hx
    have hanswer := hr x
    dsimp only
    rw [hb] at hanswer ⊢
    exact hanswer
  clear h hs
  induction xs with
  | nil =>
    intro acc zs s s' hs h
    cases h
    exact ⟨hs, by simp, by simp⟩
  | cons x xs ih =>
    intro acc zs s s' hs h
    rw [List.filterAuxM, execute_bind_ok] at h
    obtain ⟨b, s₁, hx, h⟩ := h
    obtain ⟨s₂, hx', hs₁⟩ := hr x s hs
    obtain ⟨hb, rfl⟩ := Prod.mk.inj (hx'.symm.trans hx)
    obtain ⟨hs', rfl, hall⟩ := ih hs₁ h
    refine ⟨hs', ?_, List.forall_mem_cons.mpr ⟨⟨b, hb⟩, hall⟩⟩
    cases b <;> simp [hb, Except.toOption]

end CodeAction

/-! ## Loaded symbols -/

namespace OpenDocument

open CodeAction

variable {d : OpenDocument} {known : List Symbol}

theorem execute_symbols_of_loaded (h : s.loaded.lookup d.opening = some known) :
    d.symbols.execute w s = (.ok known, s) := by
  simp [symbols, execute_bind, h]

theorem loaded_cachedSymbols : ((cachedSymbols d).execute w s).2.loaded = s.loaded := by
  simp only [cachedSymbols, execute_bind, execute_get]
  cases s.cache with
  | none => rfl
  | some c => rfl

theorem loaded_requestedSymbols : ((requestedSymbols d).execute w s).2.loaded = s.loaded := by
  simp only [requestedSymbols, execute_bind, execute_modify, execute_source, execute_lift, execute_get]
  cases w.source.symbols d.uri with
  | error e => rfl
  | ok reported =>
    cases s.cache with
    | none => rfl
    | some c => rfl

theorem loaded_symbols (d : OpenDocument) (w : Workspace) (s : ActionState) :
    (∃ symbols, s.loaded.lookup d.opening = some symbols ∧ d.symbols.execute w s = (.ok symbols, s)) ∨
    s.loaded.lookup d.opening = none ∧
      ((∃ symbols s', d.symbols.execute w s = (.ok symbols, s') ∧ s'.loaded = (d.opening, symbols) :: s.loaded) ∨
        ∃ e s', d.symbols.execute w s = (.error e, s') ∧ s'.loaded = s.loaded) := by
  cases hloaded : s.loaded.lookup d.opening with
  | some symbols => exact .inl ⟨symbols, rfl, execute_symbols_of_loaded hloaded⟩
  | none =>
    refine .inr ⟨rfl, ?_⟩
    have hcached := loaded_cachedSymbols (d := d) (w := w) (s := s)
    simp only [symbols, execute_bind, execute_get, hloaded]
    rcases hrun : (cachedSymbols d).execute w s with ⟨e | found, s₁⟩
    · rw [hrun] at hcached
      exact .inr ⟨e, s₁, rfl, hcached⟩
    · rw [hrun] at hcached
      cases found with
      | some symbols =>
        refine .inl ⟨symbols, { s₁ with loaded := (d.opening, symbols) :: s₁.loaded }, rfl, ?_⟩
        rw [← hcached]
      | none =>
        have hrequested := loaded_requestedSymbols (d := d) (w := w) (s := s₁)
        rcases hrun' : (requestedSymbols d).execute w s₁ with ⟨e | symbols, s₂⟩
        · rw [hrun', hcached] at hrequested
          exact .inr ⟨e, s₂, by simp only [hrun', execute_bind], hrequested⟩
        · rw [hrun', hcached] at hrequested
          refine .inl ⟨symbols, { s₂ with loaded := (d.opening, symbols) :: s₂.loaded },
            by simp only [hrun', execute_bind, execute_modify, execute_pure], ?_⟩
          rw [← hrequested]

theorem keeps_loaded_symbols (d : OpenDocument) {n : Nat} (h : s.loaded.lookup n = some known) :
    (d.symbols.execute w s).2.loaded.lookup n = some known := by
  rcases d.loaded_symbols w s with ⟨_, _, hrun⟩ | ⟨hnone, ⟨_, s', hrun, hafter⟩ | ⟨_, s', hrun, hafter⟩⟩
  · rwa [hrun]
  · rw [hrun, hafter, List.lookup_cons]
    cases heq : n == d.opening with
    | true => simp [eq_of_beq heq, hnone] at h
    | false => exact h
  · rwa [hrun, hafter]

theorem loaded_of_symbols (h : d.symbols.execute w s = (.ok known, s')) : s'.loaded.lookup d.opening = some known := by
  rcases d.loaded_symbols w s with ⟨_, hloaded, hrun⟩ | ⟨-, ⟨_, _, hrun, hafter⟩ | ⟨_, _, hrun, -⟩⟩
  · rw [hrun] at h
    cases h
    exact hloaded
  · rw [hrun] at h
    cases h
    rw [hafter, List.lookup_cons_self]
  · rw [hrun] at h
    cases h

/-- Asked for its symbols, the document answers with the given ones. -/
def Shows (d : OpenDocument) (w : Workspace) (known : List Symbol) (s : ActionState) : Prop :=
  (d.symbols.execute w s).1 = .ok known

theorem shows_of_loaded (h : s.loaded.lookup d.opening = some known) : d.Shows w known s := by
  rw [Shows, execute_symbols_of_loaded h]

theorem Shows.execute_symbols (h : d.Shows w known s) :
    ∃ s', d.symbols.execute w s = (.ok known, s') ∧ s'.loaded.lookup d.opening = some known := by
  have hrun : d.symbols.execute w s = (.ok known, (d.symbols.execute w s).2) := Prod.ext h rfl
  exact ⟨_, hrun, loaded_of_symbols hrun⟩

theorem answers_symbols : Answers (d.Shows w known) w d.symbols (.ok known) := by
  intro s hs
  obtain ⟨s', hrun, hloaded⟩ := hs.execute_symbols
  exact ⟨s', hrun, shows_of_loaded hloaded⟩

end OpenDocument

end CppScaffold
