import Mathlib.Algebra.Group.Nat.Defs
import Mathlib.Data.List.Induction
import Retrace.Proofs.Names
import Retrace.Proofs.Table
/-!
# Requests — a table under any requests

Four things are asked of a table: the handle of an operand, the binding of a result, the term of a value, and to be
cleared.  Whatever was asked, in whatever order and about whatever references, the table is consistent
(`Cache.Consistent`): references and places determine each other, no handle was ever cut off, and every name that was
given out belongs to one value.

No reference is bound twice and every term fits its value (`Cache.Wf`).  The names rest on a second invariant: the named
values carry the numbers 0, 1, 2, … in the order of their places (`Cache.Numbered`).  Only the binding of a result names
anything, and it makes the term at once, so that a term which is made later is that of a constant.
-/
namespace Retrace

def Value.isNamed : Value → Bool
  | .named _ _ => true
  | .constant _ => false

namespace Cache

variable {cat : Catalog} {rs : List Reference} {c c' : Cache}

/-! ## Named values -/

def namedBefore (c : Cache) (n : Nat) : Nat := (c.values.take n).countP Value.isNamed

theorem namedBefore_succ {x : Handle} {v : Value} (h : c.valueAt? x = some v) (hv : v.isNamed = true) :
    c.namedBefore (x.index.toNat + 1) = c.namedBefore x.index.toNat + 1 := by
  have hget : c.values[x.index.toNat]? = some v := h
  rw [namedBefore, List.take_add_one, hget, Option.toList_some, List.countP_append, List.countP_singleton, if_pos hv]
  rfl

theorem namedBefore_size (c : Cache) : c.namedBefore c.size = c.values.countP Value.isNamed := by
  rw [namedBefore, size, List.take_length]

theorem namedBefore_le {m n : Nat} (h : m ≤ n) : c.namedBefore m ≤ c.namedBefore n :=
  (List.take_prefix_take_left h).sublist.countP_le

/-- Of two places, the earlier of a named value has fewer named values before it. -/
theorem namedBefore_lt {x : Handle} {v : Value} {n : Nat} (h : c.valueAt? x = some v) (hv : v.isNamed = true)
    (hlt : x.index.toNat < n) : c.namedBefore x.index.toNat < c.namedBefore n := by
  have hle := namedBefore_le (c := c) hlt
  rw [namedBefore_succ h hv] at hle
  exact hle

theorem Extends.namedBefore (h : Extends c c') {n : Nat} (hn : n ≤ c.size) : c'.namedBefore n = c.namedBefore n := by
  obtain ⟨more, hmore⟩ := h.values
  rw [Cache.namedBefore, ← hmore, List.take_append_of_le_length hn]
  rfl

/-- Consulting a table brings no unknowns up. -/
theorem Consults.countP_named (h : Consults cat rs c c') (hc : c.Wf) :
    c'.values.countP Value.isNamed = c.values.countP Value.isNamed := by
  obtain ⟨more, hmore⟩ := h.values
  have hconstant : ∀ v ∈ more, ¬ v.isNamed = true := by
    intro v hv
    obtain ⟨i, hi⟩ := List.mem_iff_getElem?.1 hv
    have hget : c'.values[c.size + i]? = some v := by
      rw [← hmore, size, List.getElem?_append_right (Nat.le_add_right _ _), Nat.add_sub_cancel_left, hi]
    have hlt : c.size + i < c'.size := (List.getElem?_eq_some_iff.1 hget).1
    have hplace := index_handleAt (Nat.lt_of_lt_of_le hlt h.wf.size_le)
    have hvalue : c'.valueAt? (handleAt (c.size + i)) = some v := by rw [valueAt?, hplace, hget]
    cases v with
    | constant k => exact Bool.false_ne_true
    | named name ty =>
      -- it was there before, but stands behind all that were
      have hold := lt_size_of_valueAt? (h.named_before hc hvalue).1
      omega
  rw [← hmore, List.countP_append, List.countP_eq_zero.2 hconstant, Nat.add_zero]

/-! ## Numbers -/

/-- **Names are numbered by place**: the term of a named value has as its number how many were named before it, and as
many names were given out as there are named values. -/
structure Numbered (c : Cache) : Prop where
  term : ∀ {x name ty}, c.valueAt? x = some (.named name ty) →
    c.termAt? x = some (.var ty (NameSupply.nameFor name (c.namedBefore x.index.toNat)))
  issued : c.names.issued = c.values.countP Value.isNamed

theorem numbered_empty : ({} : Cache).Numbered := by
  refine ⟨fun h => ?_, rfl⟩
  rw [valueAt?_empty] at h
  cases h

theorem Numbered.consults (h : c.Numbered) (hc : c.Wf) (hcon : Consults cat rs c c') : c'.Numbered := by
  refine ⟨fun {x name ty} hx => ?_, ?_⟩
  · obtain ⟨hold, hterm⟩ := hcon.named_before hc hx
    rw [hterm, hcon.namedBefore (Nat.le_of_lt (lt_size_of_valueAt? hold))]
    exact h.term hold
  · rw [hcon.names, h.issued, hcon.countP_named hc]

theorem Numbered.withResult (h : c.Numbered) (hc : c.Wf) {id : RefId} (v : Value) (hnew : c.lookup id = none) :
    (c.withResult id v).Numbered := by
  have hext : Extends c (c.withResult id v) := hc.extends_withResult v hnew
  refine ⟨fun {x name ty} hx => ?_, ?_⟩
  · rcases valueAt?_append hx with hold | ⟨hlast, rfl⟩
    · rw [hext.namedBefore (Nat.le_of_lt (lt_size_of_valueAt? hold))]
      exact hext.termAt? (h.term hold)
    · -- the new value is behind all the others, so its number is the next one
      rw [hlast, hext.namedBefore (Nat.le_refl _), namedBefore_size, ← h.issued]
      exact termAt?_append_last hc hlast
  · have hvalues : (c.withResult id v).values = c.values ++ [v] := rfl
    rw [hvalues, List.countP_append, ← h.issued]
    cases v <;> rfl

/-! ## What a request does -/

/-- One request to a table.  Operands need not come with the same catalog each time. -/
inductive Request where
  | valueOf (cat : Catalog) (r : Reference)
  | register (r : Reference) (v : Value)
  | termOf (h : Handle)
  | clear
  deriving DecidableEq

def serve (c : Cache) : Request → Cache
  | .valueOf cat r => endState (valueOf cat r c)
  | .register r v => endState (register r.id v c)
  | .termOf h => endState (termOf h c)
  | .clear => c.clear

def after (requests : List Request) : Cache := requests.foldl serve {}

theorem after_append (requests more : List Request) : after (requests ++ more) = more.foldl serve (after requests) :=
  List.foldl_append

theorem after_snoc (requests : List Request) (q : Request) : after (requests ++ [q]) = (after requests).serve q :=
  after_append requests [q]

/-- **What a request does to a table**: it consults it at most, or binds a result, or clears all. -/
inductive Served (c : Cache) : Request → Cache → Prop
  | consulted (q : Request) (cat : Catalog) (rs : List Reference) (c' : Cache) (hcon : Consults cat rs c c') :
      Served c q c'
  | bound (r : Reference) (v : Value) (hnew : c.lookup r.id = none) : Served c (.register r v) (c.withResult r.id v)
  | cleared : Served c .clear c.clear

theorem endState_termOf (cat : Catalog) (hc : c.Wf) (h : Handle) : Consults cat [] c (endState (termOf h c)) := by
  cases hv : c.valueAt? h with
  | none =>
    have hnone : c.terms[h.index.toNat]? = none := by
      rw [List.getElem?_eq_none_iff, hc.columns]
      exact List.getElem?_eq_none_iff.1 hv
    rw [termOf, hnone]
    exact .refl _ hc
  | some v =>
    obtain ⟨t, c', ht, hcon, -⟩ := termOf_ok cat hc hv
    rw [ht]
    exact hcon

/-- **Every request does one of these things.** -/
theorem serve_served (hc : c.Wf) (q : Request) : Served c q (c.serve q) := by
  cases q with
  | valueOf cat r =>
    simp only [serve]
    cases hr : valueOf cat r c with
    | error e c' =>
      rw [valueOf_error hr]
      exact .consulted _ cat [] c (.refl _ hc)
    | ok h c' => exact .consulted _ cat [r] c' (valueOf_ok hc hr).1
  | register r v =>
    simp only [serve]
    cases hr : register r.id v c with
    | error e c' =>
      rw [register_error hc hr]
      exact .consulted _ {} [] c (.refl _ hc)
    | ok p c' =>
      obtain ⟨hnew, -, rfl⟩ := register_ok hc (x := p.1) (t := p.2) hr
      exact .bound r v hnew
  | termOf h => exact .consulted _ {} [] _ (endState_termOf {} hc h)
  | clear => exact .cleared

/-- **Bound once and numbered by place**: what every request preserves. -/
structure Kept (c : Cache) : Prop where
  wf : c.Wf
  numbered : c.Numbered

theorem Kept.served (h : c.Kept) {q : Request} (hq : Served c q c') : c'.Kept := by
  cases hq with
  | consulted q cat rs c' hcon => exact ⟨hcon.wf, h.numbered.consults h.wf hcon⟩
  | bound r v hnew => exact ⟨h.wf.withResult v hnew, h.numbered.withResult h.wf v hnew⟩
  | cleared => exact ⟨wf_empty, numbered_empty⟩

theorem after_kept (requests : List Request) : (after requests).Kept := by
  induction requests using List.reverseRecOn with
  | nil => exact ⟨wf_empty, numbered_empty⟩
  | append_singleton requests q ih =>
    rw [after_snoc]
    exact ih.served (serve_served ih.wf q)

/-- **Until a table is cleared, nothing is taken back.** -/
theorem after_extends (requests more : List Request) (hclear : .clear ∉ more) :
    Extends (after requests) (after (requests ++ more)) := by
  induction more using List.reverseRecOn with
  | nil =>
    rw [List.append_nil]
    exact .refl _
  | append_singleton more q ih =>
    rw [List.mem_append, List.mem_singleton, not_or] at hclear
    rw [← List.append_assoc, after_snoc]
    refine (ih hclear.1).trans ?_
    have hwf := (after_kept (requests ++ more)).wf
    have hserved := serve_served hwf q
    revert hserved
    generalize (after (requests ++ more)).serve q = c'
    intro hserved
    cases hserved with
    | consulted q cat rs c' hcon => exact hcon.toExtends
    | bound r v hnew => exact hwf.extends_withResult v hnew
    | cleared => exact absurd rfl hclear.2

/-! ## A consistent table -/

/-- **A consistent table.**  The columns are equally long, and as many references are bound.  References and handles below
the number of values determine each other, and there are handles for all of them, also for the next value as long as
there is a reference it could be bound to.  A constant has no other term than itself.  Every unknown has its term, under
a number below that of the next name; no two unknowns share a number, and no two terms a name; and as many names were
given out as there are unknowns. -/
structure Consistent (c : Cache) : Prop where
  columns : c.terms.length = c.values.length ∧ c.byRef.size = c.values.length
  size_le : c.size ≤ 2 ^ 32
  allocated : ∀ {id : RefId} {h : Handle}, c.lookup id = some h → h.index.toNat < c.size
  bound : ∀ {h : Handle}, h.index.toNat < c.size → ∃! id, c.lookup id = some h
  whole : ∀ {id : RefId}, c.lookup id = none → c.size < 2 ^ 32 ∧ (handleAt c.size).index.toNat = c.size
  constant : ∀ {h : Handle} {k : Constant} {t : Term}, c.valueAt? h = some (.constant k) → c.termAt? h = some t →
    t = .const k
  named : ∃ number : Handle → Nat,
    (∀ {h : Handle} {name : String} {ty : Ty}, c.valueAt? h = some (.named name ty) →
      c.termAt? h = some (.var ty (NameSupply.nameFor name (number h))) ∧ number h < c.names.issued) ∧
    ∀ {h h' : Handle} {v v' : Value}, c.valueAt? h = some v → c.valueAt? h' = some v' → v.isNamed → v'.isNamed →
      number h = number h' → h = h'
  distinct : ∀ {h h' : Handle} {ty ty' : Ty} {name : String}, c.termAt? h = some (.var ty name) →
    c.termAt? h' = some (.var ty' name) → h = h'
  issued : c.names.issued = c.values.countP Value.isNamed

/-- Two named values with as many named ones before them are the same. -/
theorem eq_of_namedBefore {h h' : Handle} {v v' : Value} (hv : c.valueAt? h = some v) (hv' : c.valueAt? h' = some v')
    (hn : v.isNamed = true) (hn' : v'.isNamed = true)
    (heq : c.namedBefore h.index.toNat = c.namedBefore h'.index.toNat) : h = h' := by
  apply handle_ext
  rcases Nat.lt_trichotomy h.index.toNat h'.index.toNat with hlt | heq' | hgt
  · have := namedBefore_lt hv hn hlt
    omega
  · exact heq'
  · have := namedBefore_lt hv' hn' hgt
    omega

/-- An unknown in the column of terms is that of a named value. -/
theorem Kept.value_of_var (hc : c.Kept) {h : Handle} {ty : Ty} {name : String}
    (ht : c.termAt? h = some (.var ty name)) :
    ∃ base, c.valueAt? h = some (.named base ty) ∧ name = NameSupply.nameFor base (c.namedBefore h.index.toNat) := by
  obtain ⟨v, hv⟩ := exists_value (hc.wf.lt_size_of_termAt? ht)
  cases v with
  | constant k => cases hc.wf.fits hv _ ht
  | named base ty' =>
    have hnumber := hc.numbered.term hv
    rw [ht, Option.some.injEq, Term.var.injEq] at hnumber
    obtain ⟨rfl, rfl⟩ := hnumber
    exact ⟨base, hv, rfl⟩

theorem Kept.consistent (hc : c.Kept) : c.Consistent where
  columns := ⟨hc.wf.columns, hc.wf.size_byRef⟩
  size_le := hc.wf.size_le
  allocated := hc.wf.lookup_lt
  bound := fun {h} hlt => by
    obtain ⟨id, hid⟩ := hc.wf.exists_ref hlt
    exact ⟨id, hid, fun id' hid' => hc.wf.lookup_injective hid' hid⟩
  whole := fun hnone => ⟨hc.wf.size_lt hnone, index_handleAt (hc.wf.size_lt hnone)⟩
  constant := fun {h k t} hv ht => hc.wf.fits hv t ht
  named := by
    refine ⟨fun h => c.namedBefore h.index.toNat, fun {h name ty} hv => ⟨hc.numbered.term hv, ?_⟩, eq_of_namedBefore⟩
    rw [hc.numbered.issued, ← namedBefore_size]
    exact namedBefore_lt hv rfl (lt_size_of_valueAt? hv)
  distinct := fun {h h' ty ty' name} ht ht' => by
    obtain ⟨base, hv, hname⟩ := hc.value_of_var ht
    obtain ⟨base', hv', hname'⟩ := hc.value_of_var ht'
    rw [hname] at hname'
    exact eq_of_namedBefore hv hv' rfl rfl (NameSupply.nameFor_inj hname').2
  issued := hc.numbered.issued

/-! ## Answers that stay -/

theorem valueOf_bound {r : Reference} {h : Handle} (hl : c.lookup r.id = some h) : valueOf cat r c = .ok h c := by
  rw [valueOf, hl]

/-- **What is answered for the term of a value**: the term if it was made, and then nothing changes; for a constant always
the constant itself.  The answer is the term from then on, and no name is given out. -/
def Tells (c : Cache) (h : Handle) (t : Term) : Prop :=
  (∀ t', c.termAt? h = some t' → t = t' ∧ termOf h c = .ok t c) ∧
    (∀ k, c.valueAt? h = some (.constant k) → t = .const k) ∧
    ∃ d, termOf h c = .ok t d ∧ d.termAt? h = some t ∧ d.names = c.names

theorem Wf.exists_tells (hc : c.Wf) {h : Handle} {v : Value} (hv : c.valueAt? h = some v) : ∃ t, c.Tells h t := by
  obtain ⟨t, d, ht, hcon, hterm⟩ := termOf_ok {} hc hv
  refine ⟨t, fun t' ht' => ?_, fun k hk => hcon.wf.fits (hcon.valueAt? hk) t hterm, d, ht, hterm, hcon.names⟩
  obtain rfl := Option.some.inj (hterm.symm.trans (hcon.termAt? ht'))
  exact ⟨rfl, termOf_made ht'⟩

/-- **The term of a value stays what it is**, whether or not it was made by then. -/
theorem Tells.later (hc : c.Wf) (hext : Extends c c') {h : Handle} {v : Value} {t t' : Term}
    (hv : c.valueAt? h = some v) (ht : c.Tells h t) (ht' : c'.Tells h t') : t = t' := by
  cases v with
  | constant k => rw [ht.2.1 k hv, ht'.2.1 k (hext.valueAt? hv)]
  | named name ty =>
    obtain ⟨n, -, hmade⟩ := hc.fits hv
    rw [(ht.1 _ hmade).1, (ht'.1 _ (hext.termAt? hmade)).1]

/-- **A table stays consistent under any requests.**  Until it is cleared, a bound reference keeps its handle and a
handle its term; making a term gives out no name; and a request that fails changes nothing. -/
theorem requests_consistent (requests : List Request) :
    (after requests).Consistent ∧
    (∀ more, .clear ∉ more →
      (∀ {id h}, (after requests).lookup id = some h → (after (requests ++ more)).lookup id = some h ∧
        ∀ cat r, r.id = id → valueOf cat r (after (requests ++ more)) = .ok h (after (requests ++ more))) ∧
      ∀ {h : Handle}, h.index.toNat < (after requests).size →
        ∃ t, (after requests).Tells h t ∧ (after (requests ++ more)).Tells h t) ∧
    (∀ h, (endState (termOf h (after requests))).names = (after requests).names) ∧
    (∀ cat r e d, valueOf cat r (after requests) = .error e d → d = after requests) ∧
    ∀ (r : Reference) v e d, register r.id v (after requests) = .error e d → d = after requests := by
  have hkept := after_kept requests
  refine ⟨hkept.consistent, fun more hclear => ?_, fun h => (endState_termOf {} hkept.wf h).names,
    fun cat r e d => valueOf_error, fun r v e d => register_error hkept.wf⟩
  have hext := after_extends requests more hclear
  refine ⟨fun {id h} hl => ?_, fun {h} hlt => ?_⟩
  · exact ⟨hext.lookup hl, fun cat r hr => valueOf_bound (hr ▸ hext.lookup hl)⟩
  · obtain ⟨v, hv⟩ := exists_value hlt
    obtain ⟨t, ht⟩ := hkept.wf.exists_tells hv
    obtain ⟨t', ht'⟩ := (after_kept (requests ++ more)).wf.exists_tells (hext.valueAt? hv)
    obtain rfl := ht.later hkept.wf hext hv ht'
    exact ⟨t, ht, ht'⟩

/-- Two results under one name, with an inline constant between them, in a table that was cleared before. -/
def sameRequests : List Request :=
  [.register (.var ⟨5⟩ .int) (.named "same" .int), .clear, .register (.var ⟨0⟩ .int) (.named "same" .long),
   .valueOf {} (.constant ⟨7⟩ .int (.scalar (.int 3))), .register (.var ⟨1⟩ .int) (.named "same" .int)]

/-- The constant gets its term, a reference that nothing has defined is asked for, and a result is bound again. -/
def moreRequests : List Request :=
  [.termOf ⟨1⟩, .valueOf {} (.var ⟨9⟩ .int), .register (.var ⟨0⟩ .int) (.named "again" .int)]

theorem requests_consistent_same :
    (after sameRequests).Consistent ∧ .clear ∉ moreRequests ∧
      (after sameRequests).terms = [some (.var .long "same!0"), none, some (.var .int "same!1")] ∧
      (after (sameRequests ++ moreRequests)).lookup ⟨7⟩ = some ⟨1⟩ ∧
      (after sameRequests).Tells ⟨1⟩ (.const (.scalar (.int 3))) ∧
      (after (sameRequests ++ moreRequests)).Tells ⟨1⟩ (.const (.scalar (.int 3))) ∧
      (after (sameRequests ++ moreRequests)).Tells ⟨2⟩ (.var .int "same!1") := by
  have hclear : .clear ∉ moreRequests := by decide
  obtain ⟨hconsistent, hstays, -⟩ := requests_consistent sameRequests
  obtain ⟨hlookup, hterm⟩ := hstays moreRequests hclear
  have hbound : (after sameRequests).lookup ⟨7⟩ = some ⟨1⟩ := by decide
  obtain ⟨t, ht, hlater⟩ := hterm (hconsistent.allocated hbound)
  obtain rfl : t = .const (.scalar (.int 3)) := ht.2.1 _ (by decide)
  obtain ⟨u, hu, hulater⟩ := @hterm ⟨2⟩ (by decide)
  obtain rfl : u = .var .int "same!1" := (hu.1 _ (by decide)).1
  exact ⟨hconsistent, hclear, by decide, (hlookup hbound).1, ht, hlater, hulater⟩

end Cache

end Retrace
