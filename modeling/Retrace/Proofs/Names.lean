import Retrace.Term
/-!
# Names — a generated name determines its base and its number

A name is its base, an exclamation mark and the digits of its number.  The base may itself end in a mark and digits, so
only the last mark counts: there is none among the digits.

A supply numbers the names it gives out without a gap (`NameSupply.getElem?_nextAll`), so that equal bases get different
names, and a name that comes from two supplies came under one number in both.
-/
namespace Retrace
namespace NameSupply

theorem mark_not_mem_digits (k : Nat) : '!' ∉ Nat.toDigits 10 k := by
  intro h
  have := Nat.isDigit_of_mem_toDigits (by omega) (by omega) h
  revert this
  decide

/-- Two texts that are cut at their last mark are equal only piece by piece. -/
theorem append_mark_inj {a b d e : List Char} (hd : '!' ∉ d) (he : '!' ∉ e) (h : a ++ '!' :: d = b ++ '!' :: e) :
    a = b ∧ d = e := by
  rcases List.append_eq_append_iff.1 h with ⟨as, rfl, hrest⟩ | ⟨bs, rfl, hrest⟩
  · cases as with
    | nil =>
      obtain ⟨-, rfl⟩ := List.cons.inj hrest
      exact ⟨(List.append_nil a).symm, rfl⟩
    | cons x as =>
      obtain ⟨-, rfl⟩ := List.cons.inj hrest
      exact absurd (List.mem_append_right as List.mem_cons_self) hd
  · cases bs with
    | nil =>
      obtain ⟨-, rfl⟩ := List.cons.inj hrest
      exact ⟨List.append_nil b, rfl⟩
    | cons x bs =>
      obtain ⟨-, rfl⟩ := List.cons.inj hrest
      exact absurd (List.mem_append_right bs List.mem_cons_self) he

theorem toList_nameFor (base : String) (k : Nat) :
    (nameFor base k).toList = base.toList ++ '!' :: Nat.toDigits 10 k := by
  simp [nameFor]

/-- **A name determines its base and its number.** -/
theorem nameFor_inj {b b' : String} {k k' : Nat} (h : nameFor b k = nameFor b' k') : b = b' ∧ k = k' := by
  have hlist := congrArg String.toList h
  rw [toList_nameFor, toList_nameFor] at hlist
  obtain ⟨hb, hd⟩ := append_mark_inj (mark_not_mem_digits k) (mark_not_mem_digits k') hlist
  refine ⟨String.toList_inj.1 hb, ?_⟩
  calc
    k = Nat.ofDigitChars 10 (Nat.toDigits 10 k) 0 := Nat.ofDigitChars_ten_toDigits.symm
    _ = Nat.ofDigitChars 10 (Nat.toDigits 10 k') 0 := by rw [hd]
    _ = k' := Nat.ofDigitChars_ten_toDigits

/-- Names for several bases are numbered one after the other. -/
theorem getElem?_nextAll (s : NameSupply) (bases : List String) (i : Nat) :
    (s.nextAll bases).1[i]? = bases[i]?.map fun base => nameFor base (s.issued + i) := by
  induction bases generalizing s i with
  | nil => simp [nextAll]
  | cons base bases ih =>
    cases i with
    | zero => rfl
    | succ i =>
      have hnumber : s.issued + (i + 1) = s.issued + 1 + i := by omega
      rw [hnumber]
      exact ih ⟨s.issued + 1⟩ i

theorem length_nextAll (s : NameSupply) (bases : List String) : (s.nextAll bases).1.length = bases.length := by
  induction bases generalizing s with
  | nil => rfl
  | cons base bases ih => exact congrArg (· + 1) (ih ⟨s.issued + 1⟩)

/-- The base and the number that a name was given out for. -/
theorem of_getElem?_nextAll {s : NameSupply} {bases : List String} {i : Nat} {name : String}
    (h : (s.nextAll bases).1[i]? = some name) :
    ∃ base, bases[i]? = some base ∧ name = nameFor base (s.issued + i) := by
  rw [getElem?_nextAll, Option.map_eq_some_iff] at h
  obtain ⟨base, hbase, rfl⟩ := h
  exact ⟨base, hbase, rfl⟩

/-- **Names are told apart, whatever their bases.**  Every base gets a name, and no two names of one supply are equal.  A
name that two supplies have given out was for the same base in both, and had the same number. -/
theorem names_determined (s : NameSupply) (bases : List String) :
    (s.nextAll bases).1.length = bases.length ∧ (s.nextAll bases).1.Nodup ∧
    ∀ (s' : NameSupply) (bases' : List String) (i j : Nat) (name : String),
      (s.nextAll bases).1[i]? = some name → (s'.nextAll bases').1[j]? = some name →
        (∃ base, bases[i]? = some base ∧ bases'[j]? = some base) ∧ s.issued + i = s'.issued + j := by
  refine ⟨length_nextAll s bases, List.pairwise_iff_getElem.2 fun i j hi hj hij heq => ?_,
    fun s' bases' i j name hi hj => ?_⟩
  · obtain ⟨a, -, ha⟩ := of_getElem?_nextAll (List.getElem?_eq_getElem hi)
    obtain ⟨b, -, hb⟩ := of_getElem?_nextAll (List.getElem?_eq_getElem hj)
    rw [ha, hb] at heq
    have hnumbers := (nameFor_inj heq).2
    omega
  · obtain ⟨base, hbase, rfl⟩ := of_getElem?_nextAll hi
    obtain ⟨base', hbase', hname⟩ := of_getElem?_nextAll hj
    obtain ⟨rfl, hnumbers⟩ := nameFor_inj hname
    exact ⟨⟨base, hbase, hbase'⟩, hnumbers⟩

/-- A base that looks like a name of its own, as the first of one supply and the third of another. -/
theorem names_determined_lookalike :
    (nextAll ⟨2⟩ ["v!0"]).1[0]? = some "v!0!2" ∧ (nextAll {} ["v", "v", "v!0"]).1[2]? = some "v!0!2" ∧
      (nextAll {} ["v", "v", "v!0"]).1.Nodup ∧ ∃ base, ["v!0"][0]? = some base ∧ ["v", "v", "v!0"][2]? = some base := by
  have hfirst : (nextAll ⟨2⟩ ["v!0"]).1[0]? = some "v!0!2" := rfl
  have hthird : (nextAll {} ["v", "v", "v!0"]).1[2]? = some "v!0!2" := rfl
  obtain ⟨-, -, hsame⟩ := names_determined ⟨2⟩ ["v!0"]
  exact ⟨hfirst, hthird, (names_determined {} ["v", "v", "v!0"]).2.1, (hsame {} _ 0 2 _ hfirst hthird).1⟩

end NameSupply
end Retrace
