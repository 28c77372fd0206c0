import Retrace.Shape
import Retrace.Proofs.Sequence
/-!
# Traversal — inputs are gone through as a list

The receiver, the arguments and the static state of a call are gone through part by part, but with one callback.  The
effect is that of going through the list of all inputs (`Inputs.toList_mapM`): the callback is called on one input after
the other, each time in the state it was left in, and not again after its first failure.  What comes back has the shape
of what went in.
-/
namespace Retrace

/-! ## Lists -/

/-- What each step of a traversal gives back can be read off the list of answers. -/
theorem map_of_mapM_state {ε σ α β γ : Type} {f : α → EStateM ε σ β} {g : β → γ} {h : α → γ}
    (hf : ∀ a b s s', f a s = .ok b s' → g b = h a) :
    ∀ {as : List α} {bs : List β} {s s' : σ}, as.mapM f s = .ok bs s' → bs.map g = as.map h
  | [], bs, s, s', hbs => by
    cases hbs
    rfl
  | a :: as, bs, s, s', hbs => by
    rw [List.mapM_cons] at hbs
    obtain ⟨b, s₁, hb, hbs⟩ := bind_ok hbs
    obtain ⟨bs', s₂, hbs', hbs⟩ := bind_ok hbs
    cases hbs
    rw [List.map_cons, List.map_cons, hf a b s s₁ hb, map_of_mapM_state hf hbs']

section Callbacks

variable {ε σ α β γ : Type}

/-- **A callback that succeeds on one item after the other**, each time in the state it was left in. -/
inductive Called (f : α → EStateM ε σ β) : σ → List α → List β → σ → Prop
  | nil (s : σ) : Called f s [] [] s
  | cons {s s₁ s' : σ} {a : α} {b : β} {as : List α} {bs : List β} (first : f a s = .ok b s₁)
      (rest : Called f s₁ as bs s') : Called f s (a :: as) (b :: bs) s'

/-- A callback that also notes what it is called on. -/
def noting (f : α → EStateM ε σ β) (a : α) : EStateM ε (σ × List α) β := fun (s, noted) =>
  match f a s with
  | .ok b s' => .ok b (s', noted ++ [a])
  | .error e s' => .error e (s', noted ++ [a])

/-- **What a callback is called on**, when it is to be called on all items of a list: on all of them, or on those up to
the first on which it fails. -/
def Visits (f : α → EStateM ε σ β) (as : List α) (s : σ) (visited : List α) : EStateM.Result ε σ (List β) → Prop
  | .ok bs s' => visited = as ∧ Called f s as bs s'
  | .error e s' => ∃ before a after bs s₁, as = before ++ a :: after ∧ visited = before ++ [a] ∧
      Called f s before bs s₁ ∧ f a s₁ = .error e s'

/-- The outcome of a callback, with what it has noted. -/
def withNotes (noted : List α) : EStateM.Result ε σ β → EStateM.Result ε (σ × List α) β
  | .ok b s => .ok b (s, noted)
  | .error e s => .error e (s, noted)

/-- **Going through a list**, by induction on it. -/
theorem mapM_visits (f : α → EStateM ε σ β) (as : List α) (s : σ) (noted : List α) :
    ∃ visited, Visits f as s visited (as.mapM f s) ∧
      as.mapM (noting f) (s, noted) = withNotes (noted ++ visited) (as.mapM f s) := by
  induction as generalizing s noted with
  | nil => exact ⟨[], ⟨rfl, .nil s⟩, by rw [List.append_nil]; rfl⟩
  | cons a as ih =>
    rw [List.mapM_cons, List.mapM_cons]
    cases ha : f a s with
    | error e s' =>
      have hnoting : noting f a (s, noted) = .error e (s', noted ++ [a]) := by simp only [noting, ha]
      rw [bind_of_error _ ha, bind_of_error _ hnoting]
      exact ⟨[a], ⟨[], a, as, [], s, rfl, rfl, .nil s, ha⟩, rfl⟩
    | ok b s₁ =>
      have hnoting : noting f a (s, noted) = .ok b (s₁, noted ++ [a]) := by simp only [noting, ha]
      rw [bind_of_ok _ ha, bind_of_ok _ hnoting]
      obtain ⟨visited, hvisits, hnotes⟩ := ih s₁ (noted ++ [a])
      refine ⟨a :: visited, ?_⟩
      rw [List.append_assoc, List.singleton_append] at hnotes
      cases hrest : as.mapM f s₁ with
      | ok bs s' =>
        rw [hrest] at hvisits hnotes
        obtain ⟨rfl, hcalled⟩ := hvisits
        rw [bind_of_ok _ hrest, bind_of_ok _ hnotes]
        exact ⟨⟨rfl, .cons ha hcalled⟩, rfl⟩
      | error e s' =>
        rw [hrest] at hvisits hnotes
        obtain ⟨before, a', after, bs, s₂, rfl, rfl, hcalled, hfails⟩ := hvisits
        rw [bind_of_error _ hrest, bind_of_error _ hnotes]
        exact ⟨⟨a :: before, a', after, b :: bs, s₂, rfl, rfl, .cons ha hcalled, hfails⟩, rfl⟩

/-- Two callbacks without a state, one after the other. -/
theorem mapM_except_comp {f : α → Except ε β} (g : β → Except ε γ) : ∀ {as : List α} {bs : List β},
    as.mapM f = .ok bs → as.mapM (fun a => f a >>= g) = bs.mapM g
  | [], bs, h => by
    cases h
    rfl
  | a :: as, bs, h => by
    rw [List.mapM_cons] at h
    obtain ⟨b, hb, h⟩ := except_bind_ok h
    obtain ⟨bs', hbs, h⟩ := except_bind_ok h
    cases h
    rw [List.mapM_cons, List.mapM_cons, hb, mapM_except_comp g hbs]
    rfl

theorem ofExcept_bind (x : Except ε α) (f : α → Except ε β) :
    (ofExcept (x >>= f) : EStateM ε σ β) = ofExcept x >>= fun a => ofExcept (f a) := by
  cases x <;> rfl

theorem of_ofExcept_ok {x : Except ε α} {a : α} {s s' : σ} (h : (ofExcept x : EStateM ε σ α) s = .ok a s') :
    x = .ok a := by
  cases x with
  | error e => cases h
  | ok b =>
    cases h
    rfl

/-- A callback without a state leaves any state as it is. -/
theorem mapM_ofExcept (f : α → Except ε β) (as : List α) :
    as.mapM (fun a => (ofExcept (f a) : EStateM ε σ β)) = ofExcept (as.mapM f) := by
  induction as with
  | nil => rfl
  | cons a as ih =>
    rw [List.mapM_cons, List.mapM_cons, ih, ofExcept_bind]
    simp only [ofExcept_bind]
    rfl

end Callbacks

/-! ## Inputs -/

namespace Inputs

variable {ε σ α β γ : Type} {p : Inputs α} {q : Inputs β}

theorem mapM_eq {m : Type → Type} [Monad m] [LawfulMonad m] (f : α → m β) (p : Inputs α) :
    p.mapM f = (do
      let receiver ← p.receiver.mapM f
      let arguments ← p.arguments.mapM f
      let statics ← p.statics.mapM f
      return ⟨receiver, arguments, statics⟩) := by
  unfold mapM
  cases p.receiver <;> simp

theorem mapM_toList {m : Type → Type} [Monad m] [LawfulMonad m] (f : α → m β) (o : Option α) :
    o.toList.mapM f = Option.toList <$> o.mapM f := by
  cases o <;> simp

theorem mapM_except_ok {f : α → Except ε β} (h : p.mapM f = .ok q) :
    p.receiver.toList.mapM f = .ok q.receiver.toList ∧ p.arguments.mapM f = .ok q.arguments ∧
      p.statics.mapM f = .ok q.statics := by
  rw [mapM_eq] at h
  obtain ⟨receiver, hreceiver, h⟩ := except_bind_ok h
  obtain ⟨arguments, harguments, h⟩ := except_bind_ok h
  obtain ⟨statics, hstatics, h⟩ := except_bind_ok h
  cases h
  exact ⟨by rw [mapM_toList, hreceiver]; rfl, harguments, hstatics⟩

theorem mapM_state_ok {f : α → EStateM ε σ β} {s s₃ : σ} (h : p.mapM f s = .ok q s₃) :
    ∃ s₁ s₂, p.receiver.toList.mapM f s = .ok q.receiver.toList s₁ ∧ p.arguments.mapM f s₁ = .ok q.arguments s₂ ∧
      p.statics.mapM f s₂ = .ok q.statics s₃ := by
  rw [mapM_eq] at h
  obtain ⟨receiver, s₁, hreceiver, h⟩ := bind_ok h
  obtain ⟨arguments, s₂, harguments, h⟩ := bind_ok h
  obtain ⟨statics, s₃', hstatics, h⟩ := bind_ok h
  cases h
  refine ⟨s₁, s₂, ?_, harguments, hstatics⟩
  rw [mapM_toList, map_eq_pure_bind, bind_of_ok _ hreceiver]
  rfl

/-- **A traversal of inputs is one of their list.** -/
theorem toList_mapM {m : Type → Type} [Monad m] [LawfulMonad m] (f : α → m β) (p : Inputs α) :
    toList <$> p.mapM f = p.toList.mapM f := by
  rw [mapM_eq]
  unfold toList
  simp [List.append_assoc, List.mapM_append, mapM_toList]

/-- Inputs of one shape: as many arguments, and both or none with a receiver. -/
def SameShape (p : Inputs α) (q : Inputs β) : Prop :=
  q.receiver.isSome = p.receiver.isSome ∧ q.arguments.length = p.arguments.length

theorem SameShape.of_map {f : α → γ} {g : β → γ} (hreceiver : q.receiver.toList.map g = p.receiver.toList.map f)
    (harguments : q.arguments.map g = p.arguments.map f) : p.SameShape q := by
  refine ⟨?_, by simpa using congrArg List.length harguments⟩
  cases hp : p.receiver <;> cases hq : q.receiver <;> simp_all

/-- What a traversal of inputs gives back, read off the answers, which have the shape of the inputs. -/
theorem mapM_state_map {f : α → EStateM ε σ β} {g : β → γ} {g' : α → γ}
    (hf : ∀ a b s s', f a s = .ok b s' → g b = g' a) {s s' : σ} (h : p.mapM f s = .ok q s') :
    q.toList.map g = p.toList.map g' ∧ p.SameShape q := by
  obtain ⟨s₁, s₂, hreceiver, harguments, hstatics⟩ := mapM_state_ok h
  have hr := map_of_mapM_state hf hreceiver
  have ha := map_of_mapM_state hf harguments
  refine ⟨?_, .of_map hr ha⟩
  simp only [toList, List.map_append, hr, ha, map_of_mapM_state hf hstatics]

theorem mapM_inputs_ofExcept (f : α → Except ε β) (p : Inputs α) :
    p.mapM (fun a => (ofExcept (f a) : EStateM ε σ β)) = ofExcept (p.mapM f) := by
  unfold mapM
  cases p.receiver <;> simp only [mapM_ofExcept, ofExcept_bind] <;> rfl

theorem mapM_except_map {f : α → Except ε β} {g : β → γ} {g' : α → γ} (hf : ∀ a b, f a = .ok b → g b = g' a)
    (h : p.mapM f = .ok q) : q.toList.map g = p.toList.map g' ∧ p.SameShape q := by
  have hrun : p.mapM (fun a => (ofExcept (f a) : EStateM ε Unit β)) () = .ok q () := by
    rw [mapM_inputs_ofExcept, h]
    rfl
  exact mapM_state_map (fun a b _ _ hb => hf a b (of_ofExcept_ok hb)) hrun

/-- Inputs of one shape are the same if their lists are. -/
theorem eq_of_toList {q' : Inputs β} (h : p.SameShape q) (h' : p.SameShape q') (hlist : q.toList = q'.toList) :
    q = q' := by
  obtain ⟨receiver, arguments, statics⟩ := q
  obtain ⟨receiver', arguments', statics'⟩ := q'
  have hsome : receiver.isSome = receiver'.isSome := h.1.trans h'.1.symm
  have hlength : arguments.length = arguments'.length := h.2.trans h'.2.symm
  simp only [toList, List.append_assoc] at hlist
  obtain ⟨hreceiver, hrest⟩ := List.append_inj hlist (by cases receiver <;> cases receiver' <;> simp_all)
  obtain ⟨rfl, rfl⟩ := List.append_inj hrest hlength
  cases receiver <;> cases receiver' <;> simp_all

theorem sameShape_of_mapM {f : α → EStateM ε σ β} {s s' : σ} (h : p.mapM f s = .ok q s') :
    p.SameShape q ∧ q.statics.length = p.statics.length := by
  have hcount : ∀ {as : List α} {bs : List β} {s s' : σ}, as.mapM f s = .ok bs s' →
      bs.map (fun _ => ()) = as.map fun _ => () := map_of_mapM_state fun _ _ _ _ _ => rfl
  obtain ⟨s₁, s₂, hreceiver, harguments, hstatics⟩ := mapM_state_ok h
  exact ⟨.of_map (hcount hreceiver) (hcount harguments), by simpa using congrArg List.length (hcount hstatics)⟩

theorem toList_of_mapM_ok {f : α → EStateM ε σ β} {s s' : σ} (h : p.mapM f s = .ok q s') :
    p.toList.mapM f s = .ok q.toList s' := by
  rw [← toList_mapM, map_eq_pure_bind, bind_of_ok _ h]
  rfl

theorem toList_of_mapM_error {f : α → EStateM ε σ β} {s s' : σ} {e : ε} (h : p.mapM f s = .error e s') :
    p.toList.mapM f s = .error e s' := by
  rw [← toList_mapM, map_eq_pure_bind, bind_of_error _ h]

theorem mapM_of_toList_ok {f : α → EStateM ε σ β} {s s' : σ} {bs : List β} (h : p.toList.mapM f s = .ok bs s') :
    ∃ q, p.mapM f s = .ok q s' ∧ q.toList = bs := by
  rw [← toList_mapM, map_eq_pure_bind] at h
  obtain ⟨q, s₁, hq, hbs⟩ := bind_ok h
  cases hbs
  exact ⟨q, hq, rfl⟩

theorem mapM_of_toList_error {f : α → EStateM ε σ β} {s s' : σ} {e : ε} (h : p.toList.mapM f s = .error e s') :
    p.mapM f s = .error e s' := by
  rw [← toList_mapM, map_eq_pure_bind] at h
  rcases bind_error h with h | ⟨q, s₁, -, hq⟩
  · exact h
  · cases hq

theorem mapM_option_comp {f : α → Except ε β} (g : β → Except ε γ) {o : Option α} {o' : Option β}
    (h : o.mapM f = .ok o') : o.mapM (fun a => f a >>= g) = o'.mapM g := by
  cases o with
  | none =>
    cases h
    rfl
  | some a =>
    obtain ⟨b, hb, h⟩ := except_bind_ok h
    cases h
    show (f a >>= g) >>= _ = _
    rw [hb]
    rfl

/-- Two callbacks without a state, one after the other. -/
theorem mapM_inputs_comp {f : α → Except ε β} (g : β → Except ε γ) (h : p.mapM f = .ok q) :
    p.mapM (fun a => f a >>= g) = q.mapM g := by
  rw [mapM_eq] at h
  obtain ⟨receiver, hreceiver, h⟩ := except_bind_ok h
  obtain ⟨arguments, harguments, h⟩ := except_bind_ok h
  obtain ⟨statics, hstatics, h⟩ := except_bind_ok h
  cases h
  rw [mapM_eq, mapM_eq, mapM_option_comp g hreceiver, mapM_except_comp g harguments, mapM_except_comp g hstatics]

/-- **A traversal of inputs calls back on their list**, in its order, as far as the first failure, and keeps their shape.
Without a state to thread, a second traversal can be done within the first. -/
theorem mapM_calls_back (f : α → EStateM ε σ β) (p : Inputs α) (s : σ) :
    (∃ visited, p.mapM (noting f) (s, []) = withNotes visited (p.mapM f s) ∧
      match p.mapM f s with
      | .ok q s' => visited = p.toList ∧ Called f s p.toList q.toList s' ∧
          p.SameShape q ∧ q.statics.length = p.statics.length
      | .error e s' => ∃ before a after bs s₁, p.toList = before ++ a :: after ∧ visited = before ++ [a] ∧
          Called f s before bs s₁ ∧ f a s₁ = .error e s') ∧
    ∀ g : α → Except ε β, p.mapM (fun a => (ofExcept (g a) : EStateM ε σ β)) = ofExcept (p.mapM g) ∧
      ∀ {γ : Type} (h : β → Except ε γ) {q : Inputs β}, p.mapM g = .ok q →
        p.mapM (fun a => g a >>= h) = q.mapM h := by
  refine ⟨?_, fun g => ⟨mapM_inputs_ofExcept g p, fun h => mapM_inputs_comp h⟩⟩
  obtain ⟨visited, hvisits, hnotes⟩ := mapM_visits f p.toList s []
  refine ⟨visited, ?_⟩
  cases hrun : p.mapM f s with
  | ok q s' =>
    rw [toList_of_mapM_ok hrun] at hvisits hnotes
    obtain ⟨q', hnoted, hsame⟩ := mapM_of_toList_ok hnotes
    have hshape := sameShape_of_mapM hrun
    obtain rfl : q' = q := eq_of_toList (sameShape_of_mapM hnoted).1 hshape.1 hsame
    exact ⟨hnoted, hvisits.1, hvisits.2, hshape⟩
  | error e s' =>
    rw [toList_of_mapM_error hrun] at hvisits hnotes
    exact ⟨mapM_of_toList_error hnotes, hvisits⟩

end Inputs
end Retrace
