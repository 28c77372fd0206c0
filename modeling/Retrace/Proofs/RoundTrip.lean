import Mathlib.Algebra.Group.Nat.Defs
import Retrace.Codec.Trace
import Retrace.Proofs.Digits
/-!
# RoundTrip — what is read back from serialized values

Types, members and instructions are read back from their serialized form just as they were.  Values that hold
floating-point data are read back, bit for bit, exactly if all those data are finite; of the others nothing can be read.
Nested values are read with as many levels as their serialized form has (`Reference.decodeWithin_encode`,
`Term.decodeWithin_encode`).
-/
namespace Retrace

/-! ## Fields and alternatives -/

namespace Json

variable {α : Type} {key k tag : String} {j p : Json} {rest : List (String × Json)}

@[simp] theorem tagged?_tagged : (tagged tag p).tagged? = some (tag, p) := rfl

@[simp] theorem depth_tagged : (tagged tag p).depth = p.depth + 1 := by simp [tagged, depth, depthOfFields]

@[simp] theorem field?_cons :
    (obj ((k, j) :: rest)).field? key = if key = k then some j else (obj rest).field? key := by
  by_cases h : key = k
  · simp [field?, h]
  · rw [if_neg h, field?, List.lookup_cons, beq_false_of_ne h]
    rfl

@[simp] theorem get_cons [Coded α] :
    (obj ((k, j) :: rest)).get key = if key = k then (decode j : Option α) else (obj rest).get key := by
  by_cases h : key = k <;> simp [get, h]

/-- An optional field that is there is read as an optional value. -/
@[simp] theorem optional_cons [Coded α] :
    (obj ((k, j) :: rest)).optional key =
      if key = k then (decode j : Option (Option α)) else (obj rest).optional key := by
  by_cases h : key = k
  · cases j <;> simp [optional, optionalBy, h, decode]
  · simp [optional, optionalBy, h]

end Json

/-! ## Conditions -/

section

variable {α β : Type} {c d : Bool} {a : α}

@[simp] theorem map_bif {f : α → β} : (bif c then some a else none).map f = bif c then some (f a) else none := by
  cases c <;> rfl

@[simp] theorem bind_bif {f : α → Option β} : (bif c then some a else none).bind f = bif c then f a else none := by
  cases c <;> rfl

@[simp] theorem bif_and {x y : α} : (bif c && d then x else y) = bif c then (bif d then x else y) else y := by
  cases c <;> rfl

end

/-! ## Plain values -/

@[simp] theorem decode_encode_bool (b : Bool) : decode (encode b) = some b := rfl

@[simp] theorem decode_encode_string (s : String) : decode (encode s) = some s := rfl

@[simp] theorem decode_encode_char (c : Char) : decode (encode c) = some c := by
  simp only [encode, decode, String.toList_singleton]

/-- An integer within the bounds of its type is read back. -/
theorem Json.map_intWithin? {α : Type} {low high n : Int} {ofInt : Int → α} (hlow : low ≤ n) (hhigh : n < high + 1) :
    ((Json.int n).intWithin? low high).map ofInt = some (ofInt n) := by
  rw [intWithin?, if_pos ⟨hlow, Int.le_of_lt_add_one hhigh⟩, Option.map_some]

@[simp] theorem decode_encode_int8 (n : Int8) : decode (encode n) = some n :=
  (Json.map_intWithin? n.le_toInt n.toInt_lt).trans (congrArg some n.ofInt_toInt)

@[simp] theorem decode_encode_int16 (n : Int16) : decode (encode n) = some n :=
  (Json.map_intWithin? n.le_toInt n.toInt_lt).trans (congrArg some n.ofInt_toInt)

@[simp] theorem decode_encode_int32 (n : Int32) : decode (encode n) = some n :=
  (Json.map_intWithin? n.le_toInt n.toInt_lt).trans (congrArg some n.ofInt_toInt)

@[simp] theorem decode_encode_int64 (n : Int64) : decode (encode n) = some n :=
  (Json.map_intWithin? n.le_toInt n.toInt_lt).trans (congrArg some n.ofInt_toInt)

@[simp] theorem decode_encode_uint32 (n : UInt32) : decode (encode n) = some n := by
  have hlt := n.toNat_lt
  exact (Json.map_intWithin? (by omega) (by omega)).trans (congrArg some UInt32.ofNat_toNat)

@[simp] theorem decode_encode_uint64 (n : UInt64) : decode (encode n) = some n := by
  have hlt := n.toNat_lt
  exact (Json.map_intWithin? (by omega) (by omega)).trans (congrArg some UInt64.ofNat_toNat)

@[simp] theorem decode_encode_nat (n : Nat) : decode (encode n) = bif decide (n < 2 ^ 64) then some n else none := by
  by_cases h : n < 2 ^ 64
  · rw [decide_eq_true h]
    exact Json.map_intWithin? (by omega) (by omega)
  · rw [decide_eq_false h]
    simp only [encode, decode, Json.intWithin?]
    rw [if_neg (by omega)]
    rfl

theorem Json.hex?_padded {width n : Nat} (hwidth : 0 < width) (hn : n < 16 ^ width) :
    (Json.str (String.ofList (Digits.padded 16 width n))).hex? width = some n := by
  rw [hex?, String.toList_ofList, if_pos (Digits.length_padded (by decide) hwidth hn)]
  exact Digits.read?_padded (by decide) (by decide) n

@[simp] theorem decode_encode_binary32 (x : Binary32) : decode (encode x) = bif x.isFinite then some x else none := by
  simp only [encode, decode]
  cases x.isFinite with
  | false => rfl
  | true =>
    rw [if_pos rfl, Json.hex?_padded (by decide) x.bits.toNat_lt, Option.map_some, UInt32.ofNat_toNat]
    rfl

@[simp] theorem decode_encode_binary64 (x : Binary64) : decode (encode x) = bif x.isFinite then some x else none := by
  simp only [encode, decode]
  cases x.isFinite with
  | false => rfl
  | true =>
    rw [if_pos rfl, Json.hex?_padded (by decide) x.bits.toNat_lt, Option.map_some, UInt64.ofNat_toNat]
    rfl

/-! ## Lists and optional values -/

/-- Reading back each item of a list, where an item is read back exactly if it is `fine`. -/
theorem mapM_read_write {α : Type} {write : α → Json} {read : Json → Option α} {fine : α → Bool}
    (h : ∀ x, read (write x) = bif fine x then some x else none) :
    ∀ xs : List α, (xs.map write).mapM read = bif xs.all fine then some xs else none
  | [] => rfl
  | x :: xs => by
    rw [List.map_cons, List.mapM_cons, h x, mapM_read_write h xs, List.all_cons]
    cases fine x <;> cases xs.all fine <;> rfl

section

variable {α : Type} [Coded α]

theorem decode_encode_list (fine : α → Bool) (h : ∀ x : α, decode (encode x) = bif fine x then some x else none)
    (xs : List α) : decode (encode xs) = bif xs.all fine then some xs else none :=
  mapM_read_write h xs

/-- An optional value is read back exactly if it is missing or can be read back, unless it is taken for a missing one. -/
theorem decode_encode_option (fine : α → Bool) (h : ∀ x : α, decode (encode x) = bif fine x then some x else none)
    (hnull : ∀ x : α, encode x ≠ .null) : ∀ o : Option α, decode (encode o) = bif o.all fine then some o else none
  | none => rfl
  | some x => by
    have hread : (decode (encode (some x)) : Option (Option α)) = (decode (encode x)).map some := by
      show decode (encode x) = _
      cases hx : encode x with
      | null => exact absurd hx (hnull x)
      | _ => rfl
    rw [hread, h, Option.all_some]
    cases fine x <;> rfl

theorem decode_encode_plain_list (h : ∀ x : α, decode (encode x) = some x) (xs : List α) :
    decode (encode xs) = some xs := by
  rw [decode_encode_list (fun _ => true) h, List.all_eq_true.2 fun _ _ => rfl, cond_true]

theorem decode_encode_plain_option (h : ∀ x : α, decode (encode x) = some x) (hnull : ∀ x : α, encode x ≠ .null)
    (o : Option α) : decode (encode o) = some o := by
  rw [decode_encode_option (fun _ => true) h hnull]
  cases o <;> rfl

end

/-! ## Types and members -/

namespace Ty

theorem decodeWithin_encode : ∀ (t : Ty) (n : Nat), t.encode.depth ≤ n → decodeWithin n t.encode = some t
  | t, 0, h => by cases t <;> simp [encode, Json.depth] at h
  | .object name, n + 1, _ => rfl
  | .array element, n + 1, h => by
    rw [encode, Json.depth_tagged] at h
    have ih := decodeWithin_encode element n (Nat.le_of_succ_le_succ h)
    show (decodeWithin n element.encode).map Ty.array = _
    rw [ih, Option.map_some]
  | .void, _ + 1, _ | .bool, _ + 1, _ | .byte, _ + 1, _ | .char, _ + 1, _ | .short, _ + 1, _ | .int, _ + 1, _
  | .long, _ + 1, _ | .float, _ + 1, _ | .double, _ + 1, _ => rfl

@[simp] theorem decode_encode (t : Ty) : decode (Coded.encode t) = some t := decodeWithin_encode t _ (Nat.le_refl _)

end Ty

@[simp] theorem Class.decode_encode (c : Class) : decode (encode c) = some c := by
  unfold instCodedClass
  simp

@[simp] theorem Signature.decode_encode (s : Signature) : decode (encode s) = some s := by
  unfold instCodedSignature
  simp [decode_encode_plain_list Ty.decode_encode]

@[simp] theorem MethodRef.decode_encode (m : MethodRef) : decode (encode m) = some m := by
  unfold instCodedMethodRef
  simp

@[simp] theorem FieldRef.decode_encode (f : FieldRef) : decode (encode f) = some f := by
  unfold instCodedFieldRef
  simp

@[simp] theorem Method.decode_encode (m : Method) : decode (encode m) = some m := by
  unfold instCodedMethod
  simp

@[simp] theorem Field.decode_encode (f : Field) : decode (encode f) = some f := by
  unfold instCodedField
  simp

/-! ## Tests -/

namespace Scalar

/-- A scalar is an alternative with a payload. -/
theorem decodeTagged_encode (v : Scalar) : ∃ tag p, v.encode = .tagged tag p ∧ tag ≠ "Method" ∧ tag ≠ "Other" ∧
    decodeTagged tag p = bif v.isFinite then some v else none := by
  cases v <;> refine ⟨_, _, rfl, by decide, by decide, ?_⟩ <;> simp [decodeTagged, isFinite]

end Scalar

@[simp] theorem Literal.decode_encode (l : Literal) : decode (encode l) = bif l.isFinite then some l else none := by
  unfold instCodedLiteral
  cases l with
  | scalar v =>
    obtain ⟨tag, p, hv, hmethod, hother, hread⟩ := v.decodeTagged_encode
    simp [hv, hread, isFinite]
  | method ref => simp [isFinite]
  | other description => simp [isFinite]

@[simp] theorem RefId.decode_encode (id : RefId) : decode (encode id) = some id := by
  unfold instCodedRefId
  simp

namespace Reference

@[simp] theorem get_id_record (id : RefId) (ty : Ty) (kind : Json) : (record id ty kind).get "id" = some id := by
  simp [record]

@[simp] theorem get_ty_record (id : RefId) (ty : Ty) (kind : Json) : (record id ty kind).get "ty" = some ty := by
  simp [record]

@[simp] theorem field?_kind_record (id : RefId) (ty : Ty) (kind : Json) :
    (record id ty kind).field? "kind" = some kind := by
  simp [record]

theorem depth_lt_record (id : RefId) (ty : Ty) (kind : Json) : kind.depth < (record id ty kind).depth := by
  simp only [record, Json.depth, Json.depthOfFields]
  omega

theorem exists_encode (r : Reference) : ∃ id ty kind, r.encode = record id ty kind := by
  cases r <;> exact ⟨_, _, _, rfl⟩

theorem encode_ne_null (r : Reference) : r.encode ≠ .null := by
  obtain ⟨_, _, _, hr⟩ := r.exists_encode
  rw [hr]
  exact nofun

section

variable {nested : Json → Option Reference} {id : RefId} {ty : Ty} {j : Json}

theorem decodeKind_constant {value : Literal} : decodeKind nested id ty (.tagged "Constant" (Coded.encode value)) =
    bif value.isFinite then some (.constant id ty value) else none := by
  simp [decodeKind, Json.tagged, Json.tagged?]

theorem decodeKind_staticField {field : FieldRef} :
    decodeKind nested id ty (.tagged "Field" (.obj [("source", .null), ("field", Coded.encode field)])) =
      some (.staticField id ty field) := by
  simp [decodeKind, Json.tagged, Json.tagged?, Json.optionalBy]

theorem decodeKind_instanceField {field : FieldRef} (hj : j ≠ .null) :
    decodeKind nested id ty (.tagged "Field" (.obj [("source", j), ("field", Coded.encode field)])) =
      (nested j).map fun source => .instanceField id ty source field := by
  have hsource : Json.optionalBy nested "source" (.obj [("source", j), ("field", Coded.encode field)]) =
      (nested j).map some := by
    simp only [Json.optionalBy, Json.field?_cons, if_true]
  cases h : nested j <;> simp [decodeKind, Json.tagged, Json.tagged?, hsource, h]

theorem decodeKind_element {index : UInt64} :
    decodeKind nested id ty (.tagged "ArrayIndex" (.obj [("array", j), ("index", Coded.encode index)])) =
      (nested j).map fun base => .element id ty base index := by
  cases h : nested j <;> simp [decodeKind, Json.tagged, Json.tagged?, h]

end

/-- **A reference is read back with as many levels as it has.** -/
theorem decodeWithin_encode : ∀ (r : Reference) (n : Nat), r.encode.depth ≤ n →
    decodeWithin n r.encode = bif r.isFinite then some r else none
  | r, 0, h => by
    obtain ⟨id, ty, kind, hr⟩ := r.exists_encode
    have := depth_lt_record id ty kind
    rw [hr] at h
    omega
  | .var id ty, n + 1, _ | .null id ty, n + 1, _ | .array id ty, n + 1, _ => by
    simp [encode, decodeWithin, decodeKind, isFinite]
  | .constant id ty value, n + 1, _ => by simp [encode, decodeWithin, decodeKind_constant, isFinite]
  | .staticField id ty field, n + 1, _ => by simp [encode, decodeWithin, decodeKind_staticField, isFinite]
  | .instanceField id ty source field, n + 1, h => by
    have hdepth : source.encode.depth ≤ n := by
      simp only [encode, record, Json.depth_tagged, Json.depth, Json.depthOfFields] at h
      omega
    simp [encode, decodeWithin, decodeKind_instanceField source.encode_ne_null, decodeWithin_encode source n hdepth,
      isFinite]
  | .element id ty base index, n + 1, h => by
    have hdepth : base.encode.depth ≤ n := by
      simp only [encode, record, Json.depth_tagged, Json.depth, Json.depthOfFields] at h
      omega
    simp [encode, decodeWithin, decodeKind_element, decodeWithin_encode base n hdepth, isFinite]

@[simp] theorem decode_encode (r : Reference) : decode (Coded.encode r) = bif r.isFinite then some r else none :=
  decodeWithin_encode r _ (Nat.le_refl _)

end Reference

@[simp] theorem Operator.decode_encode (op : Operator) : decode (encode op) = some op := by cases op <;> decide

@[simp] theorem Action.decode_encode (a : Action) : decode (Coded.encode a) = bif a.isFinite then some a else none := by
  have hargs := decode_encode_list _ Reference.decode_encode
  have howner := decode_encode_option _ Reference.decode_encode Reference.encode_ne_null
  unfold instCoded
  cases a <;> simp [encode, decodeTagged, isFinite, hargs, howner]

theorem Test.decode_encode (t : Test) : decode (encode t) = bif t.isFinite then some t else none := by
  unfold instCodedTest
  simp [isFinite, decode_encode_list _ Action.decode_encode]

/-! ## Traces -/

@[simp] theorem ArithOp.decode_encode (op : ArithOp) : decode (encode op) = some op := by cases op <;> rfl

@[simp] theorem RelOp.decode_encode (op : RelOp) : decode (encode op) = some op := by cases op <;> rfl

@[simp] theorem CallKind.decode_encode (kind : CallKind) : decode (encode kind) = some kind := by cases kind <;> rfl

@[simp] theorem Handle.decode_encode (h : Handle) : decode (encode h) = some h := by
  unfold instCodedHandle
  simp

@[simp] theorem Constant.decode_encode (k : Constant) : decode (encode k) = bif k.isFinite then some k else none := by
  unfold instCodedConstant
  cases k with
  | null => rfl
  | scalar v =>
    obtain ⟨tag, p, hv, hmethod, -, hread⟩ := v.decodeTagged_encode
    simp [hv, hread, isFinite, Json.tagged, Json.tagged?]
  | method m => simp [isFinite, Json.tagged, Json.tagged?]

@[simp] theorem Instruction.decode_encode (i : Instruction) : decode (Coded.encode i) = some i := by
  have hargs := decode_encode_plain_list Handle.decode_encode
  have howner := decode_encode_plain_option Handle.decode_encode fun _ => nofun
  have hname := decode_encode_plain_option decode_encode_string fun _ => nofun
  unfold instCoded
  cases i <;> simp [encode, decodeTagged, hargs, howner, hname]

namespace Term

theorem depth_pos (t : Term) : 0 < t.encode.depth := by cases t <;> simp [encode]

theorem encode_ne_null (t : Term) : t.encode ≠ .null := by cases t <;> simp [encode, Json.tagged]

mutual

/-- **A term is read back with as many levels as it has.** -/
theorem decodeWithin_encode : ∀ (t : Term) (n : Nat), t.encode.depth ≤ n →
    decodeWithin n t.encode = bif t.isFinite then some t else none
  | t, 0, h => absurd t.depth_pos (Nat.not_lt.2 h)
  | .const value, n + 1, _ => by simp [encode, decodeWithin, decodeTagged, isFinite]
  | .var ty name, n + 1, _ => by simp [encode, decodeWithin, decodeTagged, isFinite]
  | .staticOf owner, n + 1, _ => by simp [encode, decodeWithin, decodeTagged, isFinite]
  | .field owner ty name, n + 1, h => by
    simp only [encode, Json.depth_tagged, Json.depth, Json.depthOfFields] at h
    have howner := decodeWithin_encode owner n (by omega)
    simp [encode, decodeWithin, decodeTagged, isFinite, howner]
  | .load place, n + 1, h => by
    simp only [encode, Json.depth_tagged] at h
    have hplace := decodeWithin_encode place n (by omega)
    simp [encode, decodeWithin, decodeTagged, isFinite, hplace]
  | .arith op lhs rhs, n + 1, h => by
    simp only [encode, Json.depth_tagged, Json.depth, Json.depthOfFields] at h
    have hlhs := decodeWithin_encode lhs n (by omega)
    have hrhs := decodeWithin_encode rhs n (by omega)
    simp [encode, decodeWithin, decodeTagged, isFinite, hlhs, hrhs]
  | .compare op lhs rhs, n + 1, h => by
    simp only [encode, Json.depth_tagged, Json.depth, Json.depthOfFields] at h
    have hlhs := decodeWithin_encode lhs n (by omega)
    have hrhs := decodeWithin_encode rhs n (by omega)
    simp [encode, decodeWithin, decodeTagged, isFinite, hlhs, hrhs]
  | .call owner method args, n + 1, h => by
    simp only [encode, Json.depth_tagged, Json.depth, Json.depthOfFields] at h
    have howner := decodeWithin_encode owner n (by omega)
    have hargs := decodeWithin_encodeAll args n (by omega)
    simp [encode, decodeWithin, decodeTagged, isFinite, howner, hargs, Json.items?]

theorem decodeWithin_encodeAll : ∀ (ts : List Term) (n : Nat), Json.depthOfItems (encodeAll ts) ≤ n →
    (encodeAll ts).mapM (decodeWithin n) = bif allFinite ts then some ts else none
  | [], n, _ => rfl
  | t :: ts, n, h => by
    simp only [encodeAll, Json.depthOfItems] at h
    have ht := decodeWithin_encode t n (by omega)
    have hts := decodeWithin_encodeAll ts n (by omega)
    simp [encodeAll, ht, hts, allFinite]

end

@[simp] theorem decode_encode (t : Term) : decode (Coded.encode t) = bif t.isFinite then some t else none :=
  decodeWithin_encode t _ (Nat.le_refl _)

end Term

@[simp] theorem Predicate.decode_encode (p : Predicate) :
    decode (Coded.encode p) = bif p.isFinite then some p else none := by
  have hresult := decode_encode_option _ Term.decode_encode Term.encode_ne_null
  unfold instCoded
  cases p <;> simp [encode, decodeTagged, isFinite, hresult]

@[simp] theorem Clause.decode_encode (c : Clause) :
    decode (encode c) = bif c.predicate.isFinite then some c else none := by
  unfold instCodedClause
  simp

@[simp] theorem CallSite.decode_encode (s : CallSite) :
    decode (encode s) = bif decide (s.position < 2 ^ 64) then some s else none := by
  unfold instCodedCallSite
  simp

namespace Trace

@[simp] theorem decode_encode (t : Trace) : decode t.encode = bif t.isFinite then some t else none := by
  have hclauses := mapM_read_write Clause.decode_encode t
  simp [encode, decode, Json.items?, hclauses, isFinite]

theorem decodeEntry_encodeEntry (entry : CallSite × Trace) : decodeEntry (encodeEntry entry) =
    bif decide (entry.1.position < 2 ^ 64) && entry.2.isFinite then some entry else none := by
  simp [encodeEntry, decodeEntry]

end Trace

/-- **Traces and tests are read back from their serialized form just as they were**, exactly if every floating-point
datum in them is finite, and every position fits 64 bits; of the others nothing can be read. -/
theorem serialized_read_back (entries : List (CallSite × Trace)) (t : Test) :
    (Trace.decodeAll (Trace.encodeAll entries) =
      if ∀ e ∈ entries, e.1.position < 2 ^ 64 ∧ e.2.isFinite = true then some entries else none) ∧
    decode (encode t) = if t.isFinite = true then some t else none := by
  refine ⟨?_, by rw [Test.decode_encode, Bool.cond_eq_ite]⟩
  have hentries := mapM_read_write Trace.decodeEntry_encodeEntry entries
  rw [Bool.cond_eq_ite] at hentries
  refine Eq.trans hentries (ite_congr (propext ?_) (fun _ => rfl) fun _ => rfl)
  simp only [List.all_eq_true, Bool.and_eq_true, decide_eq_true_iff]

/-- The two zeros are told apart. -/
example : decode (encode (Literal.scalar (.double ⟨0x8000000000000000⟩))) =
    some (Literal.scalar (.double ⟨0x8000000000000000⟩)) := by decide

/-- An infinite datum is lost, and with it the literal. -/
example : (decode (encode (Literal.scalar (.float ⟨0x7f800000⟩))) : Option Literal) = none := by decide

end Retrace
