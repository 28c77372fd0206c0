import Mathlib.Data.List.Nodup
import Mathlib.Data.List.Perm.Subperm
import Retrace.Cache
import Retrace.Proofs.Sequence
/-!
# Table — laws of the value table

The columns of a table and the map into them are updated one by one, and make sense only together (`Cache.Wf`): there is
a place for a term beside each value, references are bound to the places in turn, and every term fits its value.  So a
table has at most as many values as there are reference ids, a handle is never cut off, and a handle and the reference
bound to it determine each other.  Nothing is ever taken back: a later table extends an earlier one (`Cache.Extends`).

Most of what happens to a table only consults it for some references (`Cache.Consults`): inline constants are bound on
first use and terms are made, but no new unknown is named.  The one other change binds the result of an action
(`Cache.withResult`).
-/
namespace Retrace

/-- **A term that fits a value**, if it has been made: a constant stands for itself.  A named value has its term, an
unknown of its own type, numbered below `issued`. -/
def Value.Fits (issued : Nat) (term : Option Term) : Value → Prop
  | .constant k => ∀ t, term = some t → t = .const k
  | .named name ty => ∃ n, n < issued ∧ term = some (.var ty (NameSupply.nameFor name n))

theorem Value.Fits.mono {m n : Nat} (h : m ≤ n) {term : Option Term} : ∀ {v : Value}, v.Fits m term → v.Fits n term
  | .constant _, hv => hv
  | .named _ _, ⟨k, hk, hterm⟩ => ⟨k, Nat.lt_of_lt_of_le hk h, hterm⟩

namespace Cache

def termAt? (c : Cache) (h : Handle) : Option Term := (c.terms[h.index.toNat]?).join

def read (c : Cache) (r : Reference) : Option Value := (c.lookup r.id).bind c.valueAt?

def Binds (c : Cache) (rs : List Reference) : Prop := ∀ r ∈ rs, ∃ x, c.lookup r.id = some x

/-- **A table that makes sense.** -/
structure Wf (c : Cache) : Prop where
  columns : c.terms.length = c.size
  handles : c.byRef.entries.map Prod.snd = (List.range c.size).reverse.map handleAt
  fits : ∀ {x v}, c.valueAt? x = some v → v.Fits c.names.issued (c.termAt? x)

theorem valueAt?_empty (x : Handle) : ({} : Cache).valueAt? x = none := rfl

theorem wf_empty : ({} : Cache).Wf := by
  refine ⟨rfl, rfl, fun h => ?_⟩
  rw [valueAt?_empty] at h
  cases h

/-! ## Handles -/

theorem index_handleAt {n : Nat} (h : n < UInt32.size) : (handleAt n).index.toNat = n :=
  UInt32.toNat_ofNat_of_lt' h

theorem handleAt_index (h : Handle) : handleAt h.index.toNat = h := by
  simp [handleAt]

theorem handle_ext {x y : Handle} (h : x.index.toNat = y.index.toNat) : x = y := by
  rw [← handleAt_index x, ← handleAt_index y, h]

theorem exists_value {c : Cache} {x : Handle} (h : x.index.toNat < c.size) : ∃ v, c.valueAt? x = some v :=
  ⟨_, List.getElem?_eq_getElem h⟩

theorem lt_size_of_valueAt? {c : Cache} {x : Handle} {v : Value} (h : c.valueAt? x = some v) :
    x.index.toNat < c.size := (List.getElem?_eq_some_iff.1 h).1

theorem getElem?_of_termAt? {c : Cache} {x : Handle} {t : Term} (h : c.termAt? x = some t) :
    c.terms[x.index.toNat]? = some (some t) := Option.join_eq_some_iff.1 h

/-! ## Handles and references -/

/-- Ids are 32-bit words, so no more of them differ than there are words. -/
theorem length_le_of_nodup {ids : List RefId} (h : ids.Nodup) : ids.length ≤ UInt32.size := by
  have hinj : Function.Injective fun id : RefId => id.val.toNat := by
    rintro ⟨a⟩ ⟨b⟩ hab
    simpa [UInt32.toNat_inj] using hab
  have hsub : ids.map (fun id : RefId => id.val.toNat) ⊆ List.range UInt32.size := by
    intro n hn
    obtain ⟨id, -, rfl⟩ := List.mem_map.1 hn
    exact List.mem_range.2 id.val.toNat_lt_size
  have hle := (List.subperm_of_subset (h.map hinj) hsub).length_le
  rwa [List.length_map, List.length_range] at hle

namespace Wf

variable {c : Cache}

/-- As many references are bound as there are values. -/
theorem size_byRef (hc : c.Wf) : c.byRef.size = c.size := by
  have hlength := congrArg List.length hc.handles
  simpa [Keyed.size] using hlength

theorem length_keys (hc : c.Wf) : c.byRef.keys.length = c.size := by
  rw [Keyed.keys, List.length_map]
  exact hc.size_byRef

theorem size_le (hc : c.Wf) : c.size ≤ UInt32.size := by
  rw [← hc.length_keys]
  exact length_le_of_nodup c.byRef.distinct

/-- **A table with a reference to spare has a handle to spare**, so that the handle of a new value is never cut off. -/
theorem size_lt (hc : c.Wf) {id : RefId} (h : c.lookup id = none) : c.size < UInt32.size := by
  have hnodup : (id :: c.byRef.keys).Nodup := List.nodup_cons.2 ⟨Keyed.get?_eq_none_iff.1 h, c.byRef.distinct⟩
  have hle := length_le_of_nodup hnodup
  rwa [List.length_cons, hc.length_keys] at hle

theorem lookup_lt (hc : c.Wf) {id : RefId} {x : Handle} (h : c.lookup id = some x) : x.index.toNat < c.size := by
  have hmem : x ∈ c.byRef.entries.map Prod.snd := List.mem_map.2 ⟨_, Keyed.get?_eq_some_iff.1 h, rfl⟩
  rw [hc.handles] at hmem
  obtain ⟨n, hn, rfl⟩ := List.mem_map.1 hmem
  have hlt : n < c.size := by simpa using hn
  rwa [index_handleAt (Nat.lt_of_lt_of_le hlt hc.size_le)]

theorem lt_size_of_termAt? (hc : c.Wf) {x : Handle} {t : Term} (h : c.termAt? x = some t) : x.index.toNat < c.size := by
  rw [← hc.columns]
  exact (List.getElem?_eq_some_iff.1 (getElem?_of_termAt? h)).1

theorem value_of_lookup (hc : c.Wf) {id : RefId} {x : Handle} (h : c.lookup id = some x) :
    ∃ v, c.valueAt? x = some v := exists_value (hc.lookup_lt h)

/-- Every place is bound to a reference. -/
theorem exists_ref (hc : c.Wf) {x : Handle} (h : x.index.toNat < c.size) : ∃ id, c.lookup id = some x := by
  have hmem : x ∈ c.byRef.entries.map Prod.snd := by
    rw [hc.handles, ← handleAt_index x]
    exact List.mem_map_of_mem (by simpa using h)
  obtain ⟨⟨id, _⟩, hentry, rfl⟩ := List.mem_map.1 hmem
  exact ⟨id, Keyed.get?_eq_some_iff.2 hentry⟩

theorem lookup_injective (hc : c.Wf) {i j : RefId} {x : Handle} (hi : c.lookup i = some x) (hj : c.lookup j = some x) :
    i = j := by
  have hnodup : (c.byRef.entries.map Prod.snd).Nodup := by
    -- the handles are those of the places in turn, and none of them is cut off
    rw [hc.handles]
    refine (List.nodup_reverse.2 List.nodup_range).map_on fun m hm n hn heq => ?_
    have hplace : ∀ k ∈ (List.range c.size).reverse, (handleAt k).index.toNat = k := fun k hk =>
      index_handleAt (Nat.lt_of_lt_of_le (by simpa using hk) hc.size_le)
    rw [← hplace m hm, ← hplace n hn, heq]
  have hsame := List.inj_on_of_nodup_map hnodup (Keyed.get?_eq_some_iff.1 hi) (Keyed.get?_eq_some_iff.1 hj) rfl
  exact congrArg Prod.fst hsame

end Wf

/-! ## Extension -/

/-- **Nothing is taken back**: every value stays in its place, a reference stays bound, and a term stays once it has been
made. -/
structure Extends (c c' : Cache) : Prop where
  values : c.values <+: c'.values
  termAt? : ∀ {x t}, c.termAt? x = some t → c'.termAt? x = some t
  lookup : ∀ {id x}, c.lookup id = some x → c'.lookup id = some x
  issued : c.names.issued ≤ c'.names.issued

namespace Extends

theorem refl (c : Cache) : Extends c c := ⟨List.prefix_refl _, id, id, Nat.le_refl _⟩

theorem trans {a b c : Cache} (hab : Extends a b) (hbc : Extends b c) : Extends a c :=
  ⟨hab.values.trans hbc.values, fun h => hbc.termAt? (hab.termAt? h), fun h => hbc.lookup (hab.lookup h),
    Nat.le_trans hab.issued hbc.issued⟩

variable {c c' : Cache}

theorem size_le (h : Extends c c') : c.size ≤ c'.size := h.values.length_le

theorem valueAt? (h : Extends c c') {x : Handle} {v : Value} (hx : c.valueAt? x = some v) : c'.valueAt? x = some v := by
  obtain ⟨more, hmore⟩ := h.values
  rw [Cache.valueAt?, ← hmore, List.getElem?_append_left (lt_size_of_valueAt? hx)]
  exact hx

theorem lookup_eq (h : Extends c c') {id : RefId} {x y : Handle} (hx : c.lookup id = some x)
    (hy : c'.lookup id = some y) : x = y := Option.some.inj ((h.lookup hx).symm.trans hy)

theorem read (h : Extends c c') {r : Reference} {v : Value} (hr : c.read r = some v) : c'.read r = some v := by
  obtain ⟨x, hx, hv⟩ := Option.bind_eq_some_iff.1 hr
  rw [Cache.read, h.lookup hx]
  exact h.valueAt? hv

end Extends

/-! ## New values -/

/-- The table with one more value, and its term if that is made at once. -/
def append (c : Cache) (id : RefId) (v : Value) (term : Option Term) (names : NameSupply) : Cache :=
  ⟨c.values ++ [v], c.terms ++ [term], c.byRef.insert id (handleAt c.size), names⟩

section Append

variable {c : Cache} {id : RefId} {v : Value} {term : Option Term} {names : NameSupply}

theorem lookup_append (i : RefId) :
    (c.append id v term names).lookup i = if i = id then some (handleAt c.size) else c.lookup i := Keyed.get?_insert

theorem valueAt?_append {x : Handle} {w : Value} (h : (c.append id v term names).valueAt? x = some w) :
    c.valueAt? x = some w ∨ x.index.toNat = c.size ∧ w = v := by
  rw [valueAt?, append, List.getElem?_append] at h
  split at h
  · exact .inl h
  · rename_i hge
    obtain ⟨hlt, hget⟩ := List.getElem?_eq_some_iff.1 h
    rw [List.length_singleton] at hlt
    simp only [List.getElem_singleton] at hget
    exact .inr ⟨by rw [size]; omega, hget.symm⟩

theorem termAt?_append_left (hc : c.Wf) {x : Handle} (h : x.index.toNat < c.size) :
    (c.append id v term names).termAt? x = c.termAt? x := by
  rw [termAt?, append, List.getElem?_append_left (by rw [hc.columns]; exact h)]
  rfl

theorem termAt?_append_last (hc : c.Wf) {x : Handle} (h : x.index.toNat = c.size) :
    (c.append id v term names).termAt? x = term := by
  rw [termAt?, append, h, ← hc.columns, List.getElem?_append_right (Nat.le_refl _), Nat.sub_self]
  rfl

theorem extends_append (hc : c.Wf) (hnew : c.lookup id = none) (hissued : c.names.issued ≤ names.issued) :
    Extends c (c.append id v term names) := by
  refine ⟨List.prefix_append _ _, fun {x t} hx => ?_, fun {i x} hx => ?_, hissued⟩
  · rw [termAt?_append_left hc (hc.lt_size_of_termAt? hx), hx]
  · have hne : i ≠ id := fun heq => by
      rw [heq, hnew] at hx
      cases hx
    rw [lookup_append, if_neg hne, hx]

theorem Wf.append (hc : c.Wf) (hnew : c.lookup id = none) (hissued : c.names.issued ≤ names.issued)
    (hfits : v.Fits names.issued term) : (c.append id v term names).Wf := by
  have hsize : (c.append id v term names).size = c.size + 1 := List.length_append
  refine ⟨?_, ?_, fun {x w} hx => ?_⟩
  · rw [hsize, ← hc.columns]
    exact List.length_append
  · rw [Cache.append, Keyed.entries_insert_of_new hnew, List.map_cons, hc.handles]
    rw [Cache.append] at hsize
    rw [hsize, List.range_succ, List.reverse_append, List.reverse_singleton, List.singleton_append, List.map_cons]
  · rcases valueAt?_append hx with hold | ⟨hlast, rfl⟩
    · rw [termAt?_append_left hc (lt_size_of_valueAt? hold)]
      exact (hc.fits hold).mono hissued
    · rw [termAt?_append_last hc hlast]
      exact hfits

/-- The new value stands behind the handle that counts the old ones. -/
theorem Wf.valueAt?_append_last (hc : c.Wf) (hnew : c.lookup id = none) :
    (c.append id v term names).valueAt? (handleAt c.size) = some v := by
  rw [valueAt?, index_handleAt (hc.size_lt hnew), Cache.append, size, List.getElem?_append_right (Nat.le_refl _),
    Nat.sub_self]
  rfl

end Append

/-! ## Consulting the table -/

/-- **The table was consulted for some references**: what is newly bound is the inline constant of one of them, and
no unknown was named. -/
structure Consults (cat : Catalog) (rs : List Reference) (c c' : Cache) : Prop extends Extends c c' where
  wf : c'.Wf
  names : c'.names = c.names
  lookup_new : ∀ {id x}, c.lookup id = none → c'.lookup id = some x →
    ∃ r ∈ rs, ∃ k, r.id = id ∧ r.inlineConstant cat = .ok k ∧ c'.valueAt? x = some (.constant k)

namespace Consults

variable {cat : Catalog} {rs rs' : List Reference} {a b c c' : Cache}

theorem refl (rs : List Reference) (hc : c.Wf) : Consults cat rs c c :=
  ⟨.refl c, hc, rfl, fun hnone hx => by
    rw [hnone] at hx
    cases hx⟩

theorem mono (h : Consults cat rs a b) (hsub : rs ⊆ rs') : Consults cat rs' a b :=
  ⟨h.toExtends, h.wf, h.names, fun hnone hx => by
    obtain ⟨r, hr, hk⟩ := h.lookup_new hnone hx
    exact ⟨r, hsub hr, hk⟩⟩

theorem trans (hab : Consults cat rs a b) (hbc : Consults cat rs b c) : Consults cat rs a c := by
  refine ⟨hab.toExtends.trans hbc.toExtends, hbc.wf, hbc.names.trans hab.names, fun {id x} hnone hx => ?_⟩
  cases hmid : b.lookup id with
  | none => exact hbc.lookup_new hmid hx
  | some y =>
    obtain rfl := hbc.lookup_eq hmid hx
    obtain ⟨r, hr, k, hid, hk, hv⟩ := hab.lookup_new hnone hmid
    exact ⟨r, hr, k, hid, hk, hbc.valueAt? hv⟩

/-- A named value that is in the table afterwards was there before, with the same term. -/
theorem named_before (h : Consults cat rs a b) (ha : a.Wf) {x : Handle} {name : String} {ty : Ty}
    (hx : b.valueAt? x = some (.named name ty)) :
    a.valueAt? x = some (.named name ty) ∧ b.termAt? x = a.termAt? x := by
  obtain ⟨id, hid⟩ := h.wf.exists_ref (lt_size_of_valueAt? hx)
  cases hold : a.lookup id with
  | none =>
    obtain ⟨r, -, k, -, -, hk⟩ := h.lookup_new hold hid
    rw [hx] at hk
    cases hk
  | some y =>
    obtain rfl := h.lookup_eq hold hid
    obtain ⟨v, hv⟩ := ha.value_of_lookup hold
    obtain rfl := Option.some.inj ((h.valueAt? hv).symm.trans hx)
    obtain ⟨n, -, hterm⟩ := ha.fits hv
    rw [h.termAt? hterm, hterm]
    exact ⟨hv, rfl⟩

theorem lookup_none (h : Consults cat rs a b) {id : RefId} (hnone : a.lookup id = none)
    (hother : ∀ r ∈ rs, r.id ≠ id) : b.lookup id = none := by
  cases hx : b.lookup id with
  | none => rfl
  | some x =>
    obtain ⟨r, hr, -, hid, -⟩ := h.lookup_new hnone hx
    exact absurd hid (hother r hr)

end Consults

/-! ## The operations -/

section Operations

variable {cat : Catalog} {c c' : Cache}

theorem valueOf_error {r : Reference} {e : Fault} (h : valueOf cat r c = .error e c') : c' = c := by
  unfold valueOf at h
  split at h
  · cases h
  · split at h
    · cases h; rfl
    · cases h

/-- **The handle of an operand is the one its reference is bound to**, from now on. -/
theorem valueOf_ok (hc : c.Wf) {r : Reference} {x : Handle} (h : valueOf cat r c = .ok x c') :
    Consults cat [r] c c' ∧ c'.lookup r.id = some x := by
  unfold valueOf at h
  split at h
  · rename_i x' hx
    cases h
    exact ⟨.refl _ hc, hx⟩
  · rename_i hnone
    split at h
    · cases h
    · rename_i k hk
      obtain ⟨rfl, rfl⟩ : handleAt c.size = x ∧ c.append r.id (.constant k) none c.names = c' := by
        cases h
        exact ⟨rfl, rfl⟩
      have hwf : (c.append r.id (.constant k) none c.names).Wf :=
        hc.append hnone (Nat.le_refl _) (fun t ht => by cases ht)
      refine ⟨⟨extends_append hc hnone (Nat.le_refl _), hwf, rfl, fun {id x} hold hx => ?_⟩, ?_⟩
      · rw [lookup_append] at hx
        split at hx
        · rename_i hid
          cases hx
          exact ⟨r, List.mem_singleton_self r, k, hid.symm, hk, hc.valueAt?_append_last hnone⟩
        · rw [hold] at hx
          cases hx
      · rw [lookup_append, if_pos rfl]

def withTerm (c : Cache) (x : Handle) (t : Term) : Cache := { c with terms := c.terms.set x.index.toNat (some t) }

theorem termAt?_withTerm (hc : c.Wf) {x : Handle} {v : Value} (hx : c.valueAt? x = some v) (t : Term) (y : Handle) :
    (c.withTerm x t).termAt? y = if x = y then some t else c.termAt? y := by
  have hlt : x.index.toNat < c.terms.length := by rw [hc.columns]; exact lt_size_of_valueAt? hx
  rw [termAt?, withTerm, List.getElem?_set]
  by_cases hxy : x = y
  · rw [if_pos hxy, if_pos (by rw [hxy]), if_pos hlt]
    rfl
  · rw [if_neg hxy, if_neg fun heq => hxy (handle_ext heq)]
    rfl

theorem consults_withTerm (hc : c.Wf) {x : Handle} {k : Constant} (hx : c.valueAt? x = some (.constant k))
    (hterm : c.termAt? x = none) : Consults cat [] c (c.withTerm x (.const k)) := by
  have hget := termAt?_withTerm hc hx (.const k)
  have hext : Extends c (c.withTerm x (.const k)) := by
    refine ⟨List.prefix_refl _, fun {y t} hy => ?_, id, Nat.le_refl _⟩
    have hne : x ≠ y := fun heq => by
      rw [heq, hy] at hterm
      cases hterm
    rw [hget, if_neg hne, hy]
  refine ⟨hext, ⟨?_, hc.handles, fun {y v} hy => ?_⟩, rfl, (Consults.refl [] hc : Consults cat [] c c).lookup_new⟩
  · exact List.length_set.trans hc.columns
  · rw [hget]
    split
    · rename_i hxy
      have hy' : c.valueAt? x = some v := by rw [hxy]; exact hy
      obtain rfl := Option.some.inj (hx.symm.trans hy')
      exact fun t ht => (Option.some.inj ht).symm
    · exact hc.fits hy

theorem termOf_made {x : Handle} {t : Term} (h : c.termAt? x = some t) : termOf x c = .ok t c := by
  rw [termOf, getElem?_of_termAt? h]

/-- **A term is made without naming anything**: a value that has no term yet is a constant. -/
theorem termOf_ok (cat : Catalog) (hc : c.Wf) {x : Handle} {v : Value} (hx : c.valueAt? x = some v) :
    ∃ t c', termOf x c = .ok t c' ∧ Consults cat [] c c' ∧ c'.termAt? x = some t := by
  cases ht : c.termAt? x with
  | some t => exact ⟨t, c, termOf_made ht, .refl _ hc, ht⟩
  | none =>
    cases v with
    | named name ty =>
      -- a named value got its term when it was bound
      obtain ⟨n, -, hterm⟩ := hc.fits hx
      rw [ht] at hterm
      cases hterm
    | constant k =>
      have hlt : x.index.toNat < c.terms.length := by rw [hc.columns]; exact lt_size_of_valueAt? hx
      have hnone : c.terms[x.index.toNat]? = some none := by
        cases hget : c.terms[x.index.toNat]? with
        | none => exact absurd (List.getElem?_eq_none_iff.1 hget) (Nat.not_le.2 hlt)
        | some term =>
          rw [termAt?, hget] at ht
          exact congrArg some ht
      refine ⟨.const k, c.withTerm x (.const k), ?_, consults_withTerm hc hx ht, ?_⟩
      · rw [termOf, hnone]
        simp only [newTerm, hx]
        rfl
      · rw [termAt?_withTerm hc hx, if_pos rfl]

/-- The table with the value an action produced bound to its result. -/
def withResult (c : Cache) (id : RefId) (v : Value) : Cache :=
  c.append id v (some (termFor c.names v).1) (termFor c.names v).2

theorem issued_termFor (names : NameSupply) (v : Value) : names.issued ≤ (termFor names v).2.issued := by
  cases v with
  | constant k => exact Nat.le_refl _
  | named name ty => exact Nat.le_succ _

theorem Wf.extends_withResult (hc : c.Wf) {id : RefId} (v : Value) (h : c.lookup id = none) :
    Extends c (c.withResult id v) := extends_append hc h (issued_termFor c.names v)

theorem Wf.withResult (hc : c.Wf) {id : RefId} (v : Value) (h : c.lookup id = none) : (c.withResult id v).Wf := by
  refine hc.append h (issued_termFor c.names v) ?_
  cases v with
  | constant k => exact fun t ht => (Option.some.inj ht).symm
  | named name ty => exact ⟨c.names.issued, Nat.lt_succ_self _, rfl⟩

theorem Wf.lookup_withResult (hc : c.Wf) {id : RefId} (v : Value) (h : c.lookup id = none) :
    (c.withResult id v).lookup id = some (handleAt c.size) ∧
      (c.withResult id v).valueAt? (handleAt c.size) = some v := by
  refine ⟨?_, hc.valueAt?_append_last h⟩
  rw [Cache.withResult, lookup_append, if_pos rfl]

theorem Wf.termAt?_withResult (hc : c.Wf) {id : RefId} (v : Value) (h : c.lookup id = none) :
    (c.withResult id v).termAt? (handleAt c.size) = some (termFor c.names v).1 :=
  termAt?_append_last hc (index_handleAt (hc.size_lt h))

/-- Binding a result binds no other reference. -/
theorem eq_of_lookup_withResult {id id' : RefId} {v : Value} {x : Handle} (hnone : c.lookup id' = none)
    (hx : (c.withResult id v).lookup id' = some x) : id' = id := by
  rw [withResult, lookup_append] at hx
  split at hx
  · assumption
  · rw [hnone] at hx
    cases hx

theorem register_bound {id : RefId} {x : Handle} (v : Value) (h : c.lookup id = some x) :
    register id v c = .error (.invariant (.alreadyBound id)) c := by
  rw [register, h]

theorem register_new (hc : c.Wf) {id : RefId} (v : Value) (h : c.lookup id = none) :
    register id v c = .ok (handleAt c.size, (termFor c.names v).1) (c.withResult id v) := by
  -- the new value has the last place of both columns, so that is where its term is put
  have hplace : (handleAt c.size).index.toNat = c.terms.length := by rw [index_handleAt (hc.size_lt h), hc.columns]
  have hvalue : ((c.alloc v).2.bind id (handleAt c.size)).valueAt? (handleAt c.size) = some v :=
    hc.valueAt?_append_last h
  have hterms : (c.terms ++ [none]).set (handleAt c.size).index.toNat (some (termFor c.names v).1) =
      c.terms ++ [some (termFor c.names v).1] := by
    rw [hplace, List.set_append_right _ _ (Nat.le_refl _), Nat.sub_self]
    rfl
  rw [register, h]
  simp only [alloc] at hvalue ⊢
  simp only [newTerm, hvalue]
  simp only [bind, hterms]
  rfl

/-- **Binding a result**: its reference must not be bound yet. -/
theorem register_ok (hc : c.Wf) {id : RefId} {v : Value} {x : Handle} {t : Term}
    (h : register id v c = .ok (x, t) c') :
    c.lookup id = none ∧ t = (termFor c.names v).1 ∧ c' = c.withResult id v := by
  cases hid : c.lookup id with
  | some y =>
    rw [register_bound v hid] at h
    cases h
  | none =>
    rw [register_new hc v hid] at h
    cases h
    exact ⟨rfl, rfl, rfl⟩

theorem register_error (hc : c.Wf) {id : RefId} {v : Value} {e : Fault} (h : register id v c = .error e c') :
    c' = c := by
  cases hid : c.lookup id with
  | some y =>
    rw [register_bound v hid] at h
    cases h
    rfl
  | none =>
    rw [register_new hc v hid] at h
    cases h

end Operations

end Cache

end Retrace
