/-!
# Keyed entries

A finite map is a list of entries, no two under one key.  What is inserted stands in front, in place of any earlier
entry of its key.
-/
namespace Retrace

structure Keyed (κ ν : Type) where
  entries : List (κ × ν) := []
  distinct : (entries.map Prod.fst).Nodup := by exact List.nodup_nil
  deriving DecidableEq

namespace Keyed

variable {κ ν : Type} [DecidableEq κ]

def size (m : Keyed κ ν) : Nat := m.entries.length

def keys (m : Keyed κ ν) : List κ := m.entries.map Prod.fst

def get? (m : Keyed κ ν) (k : κ) : Option ν := m.entries.lookup k

/-- The entries under other keys. -/
def others (m : Keyed κ ν) (k : κ) : List (κ × ν) := m.entries.filter (·.1 != k)

theorem nodup_others (m : Keyed κ ν) (k : κ) : ((m.others k).map Prod.fst).Nodup :=
  m.distinct.sublist (List.Sublist.map _ List.filter_sublist)

theorem mem_others {m : Keyed κ ν} {k : κ} {e : κ × ν} : e ∈ m.others k ↔ e ∈ m.entries ∧ e.1 ≠ k := by
  simp [others]

def insert (m : Keyed κ ν) (k : κ) (v : ν) : Keyed κ ν where
  entries := (k, v) :: m.others k
  distinct := by
    refine List.nodup_cons.2 ⟨fun hmem => ?_, m.nodup_others k⟩
    obtain ⟨e, he, heq⟩ := List.mem_map.1 hmem
    exact (mem_others.1 he).2 heq

variable {m : Keyed κ ν} {k k' : κ} {v v' : ν}

/-! ## What is found -/

theorem lookup_eq_some_iff_mem : ∀ {l : List (κ × ν)}, (l.map Prod.fst).Nodup →
    (l.lookup k = some v ↔ (k, v) ∈ l)
  | [], _ => by simp
  | (k', v') :: l, h => by
    rw [List.map_cons, List.nodup_cons] at h
    rw [List.lookup_cons, List.mem_cons, Prod.mk.injEq]
    by_cases hk : k = k'
    · subst hk
      -- no other entry has this key
      have hnot : (k, v) ∉ l := fun hmem => h.1 (List.mem_map.2 ⟨(k, v), hmem, rfl⟩)
      simp [hnot, eq_comm]
    · simp [beq_false_of_ne hk, hk, lookup_eq_some_iff_mem h.2]

theorem get?_eq_some_iff : m.get? k = some v ↔ (k, v) ∈ m.entries := lookup_eq_some_iff_mem m.distinct

theorem get?_eq_none_iff : m.get? k = none ↔ k ∉ m.keys := by
  rw [Option.eq_none_iff_forall_ne_some]
  simp only [ne_eq, get?_eq_some_iff, keys, List.mem_map, Prod.exists, exists_and_right, exists_eq_right, not_exists]

theorem get?_insert : (m.insert k v).get? k' = if k' = k then some v else m.get? k' := by
  by_cases hk : k' = k
  · rw [if_pos hk, hk]
    exact List.lookup_cons_self
  · rw [if_neg hk]
    apply Option.ext
    intro w
    rw [get?_eq_some_iff, get?_eq_some_iff, insert, List.mem_cons, mem_others]
    simp [hk]

/-! ## Entries -/

theorem entries_insert_of_new (h : m.get? k = none) : (m.insert k v).entries = (k, v) :: m.entries := by
  refine congrArg ((k, v) :: ·) (List.filter_eq_self.2 fun e he => ?_)
  have hne : e.1 ≠ k := fun heq => get?_eq_none_iff.1 h (heq ▸ List.mem_map_of_mem he)
  simpa using hne

theorem mem_keys_insert : k' ∈ (m.insert k v).keys ↔ k' = k ∨ k' ∈ m.keys := by
  by_cases hk : k' = k <;> simp [keys, insert, mem_others, hk]

/-- Of two entries that are inserted under one key the later stays. -/
theorem insert_insert : (m.insert k v).insert k v' = m.insert k v' := by
  simp [insert, others]

end Keyed

end Retrace
