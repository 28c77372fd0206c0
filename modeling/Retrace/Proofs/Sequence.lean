/-!
# Sequence — computations one after the other

How a sequence of computations with a state and failures comes apart, and how a traversal of a list does.
-/
namespace Retrace

/-- The state a computation ends in, whether or not it succeeds. -/
def endState {ε σ α : Type} : EStateM.Result ε σ α → σ
  | .ok _ s | .error _ s => s

variable {ε σ α β : Type}

/-- **A sequence that succeeds, unpacked.** -/
theorem bind_ok {x : EStateM ε σ α} {f : α → EStateM ε σ β} {s s'' : σ} {b : β} (h : (x >>= f) s = .ok b s'') :
    ∃ a s', x s = .ok a s' ∧ f a s' = .ok b s'' := by
  simp only [bind, EStateM.bind] at h
  split at h
  · rename_i a s' hx
    exact ⟨a, s', hx, h⟩
  · cases h

/-- **A sequence that fails, unpacked**: the first part fails, or it succeeds and the rest fails. -/
theorem bind_error {x : EStateM ε σ α} {f : α → EStateM ε σ β} {s s'' : σ} {e : ε} (h : (x >>= f) s = .error e s'') :
    x s = .error e s'' ∨ ∃ a s', x s = .ok a s' ∧ f a s' = .error e s'' := by
  simp only [bind, EStateM.bind] at h
  split at h
  · rename_i a s' hx
    exact .inr ⟨a, s', hx, h⟩
  · rename_i e' s' hx
    cases h
    exact .inl hx

/-- **A sequence, unpacked**: what holds of the failures of the first part and of all that follows its successes holds
of the whole. -/
theorem bind_cases {x : EStateM ε σ α} {f : α → EStateM ε σ β} {s : σ} {Q : EStateM.Result ε σ β → Prop}
    (herror : ∀ e s', x s = .error e s' → Q (.error e s')) (hok : ∀ a s', x s = .ok a s' → Q (f a s')) :
    Q ((x >>= f) s) := by
  simp only [bind, EStateM.bind]
  split
  · rename_i a s' hx
    exact hok a s' hx
  · rename_i e s' hx
    exact herror e s' hx

theorem bind_of_ok {x : EStateM ε σ α} (f : α → EStateM ε σ β) {s s' : σ} {a : α} (h : x s = .ok a s') :
    (x >>= f) s = f a s' := by
  simp only [bind, EStateM.bind, h]

theorem bind_of_error {x : EStateM ε σ α} (f : α → EStateM ε σ β) {s s' : σ} {e : ε} (h : x s = .error e s') :
    (x >>= f) s = .error e s' := by
  simp only [bind, EStateM.bind, h]

/-! ## Traversals -/

theorem mapM_mono {f g : α → Option β} (hfg : ∀ a b, f a = some b → g a = some b) :
    ∀ {as : List α} {bs : List β}, as.mapM f = some bs → as.mapM g = some bs
  | [], bs, h => h
  | a :: as, bs, h => by
    simp only [List.mapM_cons, Option.bind_eq_bind, Option.bind_eq_some_iff] at h ⊢
    obtain ⟨b, hb, bs', hbs, heq⟩ := h
    exact ⟨b, hfg a b hb, bs', mapM_mono hfg hbs, heq⟩

theorem exists_of_mem_mapM {f : α → Option β} :
    ∀ {as : List α} {bs : List β}, as.mapM f = some bs → ∀ b ∈ bs, ∃ a ∈ as, f a = some b
  | [], bs, h => by
    obtain rfl : bs = [] := by simpa using h.symm
    exact fun b hb => by cases hb
  | a :: as, bs, h => by
    simp only [List.mapM_cons, Option.bind_eq_bind, Option.bind_eq_some_iff] at h
    obtain ⟨b, hb, bs', hbs, heq⟩ := h
    obtain rfl : b :: bs' = bs := by simpa using heq
    intro x hx
    rcases List.mem_cons.1 hx with rfl | hx
    · exact ⟨a, List.mem_cons_self, hb⟩
    · obtain ⟨a', ha', hf⟩ := exists_of_mem_mapM hbs x hx
      exact ⟨a', List.mem_cons_of_mem a ha', hf⟩

theorem exists_of_mapM {f : α → Option β} :
    ∀ {as : List α} {bs : List β}, as.mapM f = some bs → ∀ a ∈ as, ∃ b, f a = some b
  | [], _, _ => fun a ha => by cases ha
  | a :: as, bs, h => by
    simp only [List.mapM_cons, Option.bind_eq_bind, Option.bind_eq_some_iff] at h
    obtain ⟨b, hb, bs', hbs, -⟩ := h
    intro x hx
    rcases List.mem_cons.1 hx with rfl | hx
    · exact ⟨b, hb⟩
    · exact exists_of_mapM hbs x hx

theorem toOption_eq_some {ε α : Type} {x : Except ε α} {a : α} : x.toOption = some a ↔ x = .ok a := by
  cases x <;> simp [Except.toOption]

theorem except_bind_ok {ε α β : Type} {x : Except ε α} {f : α → Except ε β} {b : β} (h : x >>= f = .ok b) :
    ∃ a, x = .ok a ∧ f a = .ok b := by
  cases x with
  | error e => cases h
  | ok a => exact ⟨a, rfl, h⟩

theorem map_ok {ε α β : Type} {x : Except ε α} {f : α → β} {b : β} (h : x.map f = .ok b) :
    ∃ a, x = .ok a ∧ f a = b := by
  cases x with
  | error e => cases h
  | ok a => cases h; exact ⟨a, rfl, rfl⟩

end Retrace
