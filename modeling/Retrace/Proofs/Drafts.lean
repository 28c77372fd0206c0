import Retrace.Draft
import Retrace.Proofs.Sequence
/-!
# Drafts — laws of writing a test down

A reference that is asked for takes the next free id, and a statement that defines it goes to the end of the test
(`Draft.define_ok`).  Ids are counted as numbers here, since the count never wraps: the last id is not given out.
-/
namespace Retrace
namespace Draft

variable {d d₁ d₂ : Draft} {make : RefId → Reference} {r : Reference} {a : Action}

/-- An id other than the last has a successor. -/
theorem toNat_succ {id : UInt32} (h : id ≠ Test.lastId) :
    (id + 1).toNat = id.toNat + 1 ∧ id.toNat + 1 < UInt32.size := by
  have hne : id.toNat ≠ 4294967295 := fun he => h (UInt32.toNat_inj.1 he)
  have hlt := id.toNat_lt
  simp only [UInt32.toNat_add, UInt32.reduceToNat, UInt32.size]
  omega

theorem fresh_eq (make : RefId → Reference) (d : Draft) :
    fresh make d =
      if d.test.nextRef = Test.lastId then .error .idsExhausted d
      else .ok (make ⟨d.test.nextRef⟩) { d with test := { d.test with nextRef := d.test.nextRef + 1 } } := by
  unfold fresh Test.fresh?
  by_cases hlast : d.test.nextRef = Test.lastId <;> simp [hlast]

theorem push_eq (a : Action) (d : Draft) :
    push a d =
      if a.result.id.val < d.test.nextRef then .ok () { d with test := { d.test with actions := d.test.actions ++ [a] } }
      else if a.result.id.val = Test.lastId then .error .idsExhausted d
      else .ok () { d with test := ⟨d.test.actions ++ [a], a.result.id.val + 1⟩ } := by
  unfold push Test.push?
  by_cases hid : a.result.id.val < d.test.nextRef
  · simp only [if_pos hid]
  · simp only [if_neg hid]
    by_cases hlast : a.result.id.val = Test.lastId <;> simp [hlast]

theorem fresh_ok (h : fresh make d = .ok r d₁) :
    r = make ⟨d.test.nextRef⟩ ∧ d₁.test.actions = d.test.actions ∧
      d₁.test.nextRef.toNat = d.test.nextRef.toNat + 1 := by
  rw [fresh_eq] at h
  split at h
  · cases h
  · rename_i hlast
    cases h
    exact ⟨rfl, rfl, (toNat_succ hlast).1⟩

theorem push_ok (h : push a d = .ok () d₁) (hid : a.result.id.val < d.test.nextRef) :
    d₁.test.actions = d.test.actions ++ [a] ∧ d₁.test.nextRef = d.test.nextRef := by
  rw [push_eq, if_pos hid] at h
  cases h
  exact ⟨rfl, rfl⟩

/-- **A statement that defines a new reference.** -/
theorem define_ok (hmake : ∀ id, (make id).id = id) (hfresh : fresh make d = .ok r d₁) (hresult : a.result = r)
    (hpush : push a d₁ = .ok () d₂) :
    r = make ⟨d.test.nextRef⟩ ∧ d₂.test.actions = d.test.actions ++ [a] ∧
      d₂.test.nextRef.toNat = d.test.nextRef.toNat + 1 := by
  obtain ⟨rfl, hacts, hnext⟩ := fresh_ok hfresh
  have hid : a.result.id.val < d₁.test.nextRef := by
    rw [hresult, hmake, UInt32.lt_iff_toNat_lt, hnext]
    exact Nat.lt_succ_self _
  obtain ⟨hacts', hnext'⟩ := push_ok hpush hid
  exact ⟨rfl, by rw [hacts', hacts], by rw [hnext', hnext]⟩

theorem id_fieldTarget (object : Reference) (field : FieldRef) (id : RefId) : (fieldTarget object field id).id = id := by
  unfold fieldTarget
  split <;> rfl

end Draft
end Retrace
