import Mathlib.Data.Finset.Card
import Retrace.Catalog
/-!
# Registration — a catalog answers from the log of its declarations

A catalog is filled by a log: classes are added one after the other, each followed by its members.  What it answers can be
read off the log.  The declaration *in force* under a name is the last one of that name (`Catalog.InForce`), and of the
members that a name and a type fit, it is the first after that (`Declaration.First`); of everything else in the log the
answer is independent.

A name is held three times: by the key, by the class kept under it, and by the copy of the class in each member.  A log
leaves them equal (`Catalog.get?_eq_some_iff_inForce`), so what is found is found again under its own reference.
-/
namespace Retrace

namespace Declaration

def methods (d : Declaration) : List Method :=
  d.members.filterMap fun
    | .method name sig isStatic => some ⟨d.owner, name, sig, isStatic⟩
    | .field .. => none

def fields (d : Declaration) : List Field :=
  d.members.filterMap fun
    | .field name ty isStatic => some ⟨d.owner, name, ty, isStatic⟩
    | .method .. => none

/-- **What is to be kept of a class**: its members have its own class. -/
def entry (d : Declaration) : Catalog.Entry := ⟨d.owner, d.methods, d.fields⟩

theorem entry_add (d : Declaration) (m : Member) :
    d.entry.add m = { d with members := d.members ++ [m] : Declaration }.entry := by
  cases m <;> simp [entry, methods, fields, Catalog.Entry.add]

end Declaration

namespace Catalog

/-! ## Member by member -/

/-- Keeps a class with all its members at once. -/
def put (c : Catalog) (d : Declaration) : Catalog := ⟨c.classes.insert d.owner.name d.entry⟩

theorem addMember_put (c : Catalog) (d : Declaration) (m : Member) :
    addMember d.owner.name (c.put d) m = c.put { d with members := d.members ++ [m] } := by
  have hkept : (c.put d).classes.get? d.owner.name = some d.entry := by
    rw [put, Keyed.get?_insert, if_pos rfl]
  rw [addMember, hkept, Option.getD_some, Declaration.entry_add, put, Keyed.insert_insert]
  rfl

theorem foldl_addMember_put (c : Catalog) (ms : List Member) : ∀ d : Declaration,
    ms.foldl (addMember d.owner.name) (c.put d) = c.put { d with members := d.members ++ ms } := by
  induction ms with
  | nil => intro d; simp
  | cons m ms ih =>
    intro d
    rw [List.foldl_cons, addMember_put]
    simpa using ih { d with members := d.members ++ [m] }

/-- **A class and its members, added one at a time, are what is to be kept of it.** -/
theorem declare_eq_put (c : Catalog) (d : Declaration) : c.declare d = c.put d := by
  have hclass : c.addClass d.owner = c.put { owner := d.owner } := rfl
  rw [declare, hclass]
  simpa using foldl_addMember_put c d.members { owner := d.owner }

/-! ## The declaration in force -/

/-- **The declaration in force under a name**: the last of that name in the log. -/
def InForce (log : List Declaration) (name : String) (d : Declaration) : Prop :=
  d.owner.name = name ∧ ∃ before after, log = before ++ d :: after ∧ ∀ e ∈ after, e.owner.name ≠ name

theorem ofDeclarations_append (log : List Declaration) (d : Declaration) :
    ofDeclarations (log ++ [d]) = (ofDeclarations log).put d := by
  simp [ofDeclarations, List.foldl_append, declare_eq_put]

/-- **The last declaration of a name is kept under it.** -/
theorem get?_ofDeclarations (log : List Declaration) (name : String) :
    (ofDeclarations log).classes.get? name = (log.reverse.find? (·.owner.name == name)).map Declaration.entry := by
  induction log using List.reverseRecOn with
  | nil => rfl
  | append_singleton log d ih =>
    rw [ofDeclarations_append, put, Keyed.get?_insert, ih, List.reverse_append, List.reverse_singleton,
      List.singleton_append]
    by_cases hname : d.owner.name = name
    · rw [if_pos hname.symm, List.find?_cons_of_pos (by simpa using hname), Option.map_some]
    · rw [if_neg (Ne.symm hname), List.find?_cons_of_neg (by simpa using hname)]

theorem find?_eq_some_iff_inForce {log : List Declaration} {name : String} {d : Declaration} :
    log.reverse.find? (·.owner.name == name) = some d ↔ InForce log name d := by
  rw [List.find?_eq_some_iff_append]
  constructor
  · rintro ⟨hname, before, after, hlog, hbefore⟩
    refine ⟨by simpa using hname, after.reverse, before.reverse, ?_, fun e he => ?_⟩
    · rw [← List.reverse_inj, hlog]
      simp
    · simpa using hbefore e (List.mem_reverse.1 he)
  · rintro ⟨hname, before, after, rfl, hafter⟩
    refine ⟨by simpa using hname, after.reverse, before.reverse, by simp, fun e he => ?_⟩
    simpa using hafter e (List.mem_reverse.1 he)

/-- **Key, class and members of an entry belong together**: they are those of the declaration in force. -/
theorem get?_eq_some_iff_inForce {log : List Declaration} {name : String} {e : Entry} :
    (ofDeclarations log).classes.get? name = some e ↔ ∃ d, InForce log name d ∧ e = d.entry := by
  rw [get?_ofDeclarations, Option.map_eq_some_iff]
  exact exists_congr fun d => and_congr find?_eq_some_iff_inForce eq_comm

theorem entry_ok_iff {log : List Declaration} {name : String} {e : Entry} :
    (ofDeclarations log).entry name = .ok e ↔ ∃ d, InForce log name d ∧ e = d.entry := by
  rw [← get?_eq_some_iff_inForce, entry]
  cases (ofDeclarations log).classes.get? name <;> simp

theorem entry_error_iff {log : List Declaration} {name : String} {e : Fault} :
    (ofDeclarations log).entry name = .error e ↔ (∀ d ∈ log, d.owner.name ≠ name) ∧ e = .unknown .owner name := by
  have hnone : log.reverse.find? (·.owner.name == name) = none ↔ ∀ d ∈ log, d.owner.name ≠ name := by
    simp [List.find?_eq_none]
  unfold entry
  rw [get?_ofDeclarations, ← hnone]
  cases log.reverse.find? (·.owner.name == name) <;> simp [eq_comm]

/-- **Only the declarations of a name decide on it.** -/
theorem entry_congr {log log' : List Declaration} {name : String}
    (h : log'.filter (·.owner.name == name) = log.filter (·.owner.name == name)) :
    (ofDeclarations log').entry name = (ofDeclarations log).entry name := by
  unfold entry
  rw [get?_ofDeclarations, get?_ofDeclarations, ← List.getLast?_filter, ← List.getLast?_filter, h]

/-! ## Names -/

theorem toFinset_keys_ofDeclarations (log : List Declaration) :
    (ofDeclarations log).classes.keys.toFinset = (log.map (·.owner.name)).toFinset := by
  induction log using List.reverseRecOn with
  | nil => rfl
  | append_singleton log d ih =>
    rw [Finset.ext_iff] at ih ⊢
    intro name
    have hname := ih name
    rw [List.mem_toFinset, List.mem_toFinset] at hname
    rw [List.mem_toFinset, ofDeclarations_append, put, Keyed.mem_keys_insert, hname]
    simp

theorem size_ofDeclarations (log : List Declaration) :
    (ofDeclarations log).size = (log.map (·.owner.name)).toFinset.card := by
  rw [← toFinset_keys_ofDeclarations, Keyed.keys, List.toFinset_card_of_nodup (ofDeclarations log).classes.distinct,
    List.length_map]
  rfl

end Catalog

/-! ## The first member -/

/-- **The first of the members with a name and a type**, of which `named` leaves open only whether it is static. -/
def Declaration.First (d : Declaration) (named : Bool → Member) (isStatic : Bool) : Prop :=
  ∃ before after, d.members = before ++ named isStatic :: after ∧ ∀ b, named b ∉ before

namespace Declaration

section Reading

variable {γ : Type} {read : Member → Option γ} {fits : γ → Bool} {named : Bool → Member} {found : Bool → γ}

theorem find?_eq_some_iff_first (hfits : ∀ m, (read m).any fits = true ↔ ∃ b, m = named b)
    (hread : ∀ b, read (named b) = some (found b)) {d : Declaration} {x : γ} :
    (d.members.filterMap read).find? fits = some x ↔ ∃ b, d.First named b ∧ x = found b := by
  rw [List.find?_filterMap, Option.bind_eq_some_iff]
  constructor
  · rintro ⟨m, hm, hx⟩
    obtain ⟨hm, before, after, hmembers, hbefore⟩ := List.find?_eq_some_iff_append.1 hm
    obtain ⟨b, rfl⟩ := (hfits m).1 hm
    refine ⟨b, ⟨before, after, hmembers, fun b' hb' => ?_⟩, Option.some.inj (hx.symm.trans (hread b))⟩
    have hnot := hbefore _ hb'
    rw [(hfits _).2 ⟨b', rfl⟩] at hnot
    cases hnot
  · rintro ⟨b, ⟨before, after, hmembers, hbefore⟩, rfl⟩
    refine ⟨named b, List.find?_eq_some_iff_append.2 ⟨(hfits _).2 ⟨b, rfl⟩, before, after, hmembers, ?_⟩, hread b⟩
    intro m hm
    rw [Bool.not_eq_true', Bool.eq_false_iff]
    intro hfit
    obtain ⟨b', rfl⟩ := (hfits m).1 hfit
    exact hbefore b' hm

theorem find?_eq_none_iff_not_mem (hfits : ∀ m, (read m).any fits = true ↔ ∃ b, m = named b) {d : Declaration} :
    (d.members.filterMap read).find? fits = none ↔ ∀ b, named b ∉ d.members := by
  rw [List.find?_eq_none]
  constructor
  · intro hnone b hb
    obtain ⟨x, hread, hfit⟩ := (Option.any_eq_true _ _).1 ((hfits (named b)).2 ⟨b, rfl⟩)
    exact hnone x (List.mem_filterMap.2 ⟨named b, hb, hread⟩) hfit
  · intro hnot x hx hfit
    obtain ⟨m, hm, hread⟩ := List.mem_filterMap.1 hx
    obtain ⟨b, rfl⟩ := (hfits m).1 (by rwa [hread, Option.any_some])
    exact hnot b hm

end Reading

theorem methods_find?_some {d : Declaration} {name : String} {sig : Signature} {m : Method} :
    d.methods.find? (fun m => m.name == name && m.sig == sig) = some m ↔
      ∃ b, d.First (.method name sig) b ∧ m = ⟨d.owner, name, sig, b⟩ := by
  unfold methods
  refine find?_eq_some_iff_first (fun m => ?_) fun b => ?_
  · cases m <;> simp
  · rfl

theorem methods_find?_none {d : Declaration} {name : String} {sig : Signature} :
    d.methods.find? (fun m => m.name == name && m.sig == sig) = none ↔ ∀ b, .method name sig b ∉ d.members := by
  unfold methods
  refine find?_eq_none_iff_not_mem fun m => ?_
  cases m <;> simp

theorem fields_find?_some {d : Declaration} {name : String} {ty : Ty} {f : Field} :
    d.fields.find? (fun f => f.name == name && f.ty == ty) = some f ↔
      ∃ b, d.First (.field name ty) b ∧ f = ⟨d.owner, name, ty, b⟩ := by
  unfold fields
  refine find?_eq_some_iff_first (fun m => ?_) fun b => ?_
  · cases m <;> simp
  · rfl

theorem fields_find?_none {d : Declaration} {name : String} {ty : Ty} :
    d.fields.find? (fun f => f.name == name && f.ty == ty) = none ↔ ∀ b, .field name ty b ∉ d.members := by
  unfold fields
  refine find?_eq_none_iff_not_mem fun m => ?_
  cases m <;> simp

end Declaration

namespace Catalog

/-! ## Lookups -/

def seek {γ : Type} (c : Catalog) (owner : String) (find : Entry → Option γ) (missing : Fault) : Except Fault γ :=
  match c.entry owner with
  | .error e => .error e
  | .ok e =>
    match find e with
    | some x => .ok x
    | none => .error missing

theorem classNamed_eq_seek (c : Catalog) (owner : String) :
    c.classNamed owner = c.seek owner (some ·.owner) (.unknown .owner owner) := by
  unfold classNamed seek
  cases c.entry owner <;> rfl

theorem method_eq_seek (c : Catalog) (owner name : String) (sig : Signature) :
    c.method owner name sig = c.seek owner (·.methods.find? fun m => m.name == name && m.sig == sig)
      (.unknown .method (owner ++ "::" ++ name ++ sig.render)) := by
  unfold method seek
  cases c.entry owner with
  | error e => rfl
  | ok e => dsimp only; cases e.methods.find? (fun m => m.name == name && m.sig == sig) <;> rfl

theorem field_eq_seek (c : Catalog) (owner name : String) (ty : Ty) :
    c.field owner name ty = c.seek owner (·.fields.find? fun f => f.name == name && f.ty == ty)
      (.unknown .field (owner ++ "." ++ name ++ ": " ++ ty.render)) := by
  unfold field seek
  cases c.entry owner with
  | error e => rfl
  | ok e => dsimp only; cases e.fields.find? (fun f => f.name == name && f.ty == ty) <;> rfl

section Seek

variable {γ : Type} {c : Catalog} {owner : String} {find : Entry → Option γ} {missing : Fault}

theorem seek_ok_iff {x : γ} :
    c.seek owner find missing = .ok x ↔ ∃ e, c.entry owner = .ok e ∧ find e = some x := by
  unfold seek
  cases c.entry owner with
  | error e => simp
  | ok e => cases hfind : find e <;> simp [hfind]

theorem seek_error_iff {fault : Fault} :
    c.seek owner find missing = .error fault ↔
      c.entry owner = .error fault ∨ ∃ e, c.entry owner = .ok e ∧ find e = none ∧ fault = missing := by
  unfold seek
  cases c.entry owner with
  | error e => simp
  | ok e => cases hfind : find e <;> simp [hfind, eq_comm]

theorem seek_inForce_ok_iff {log : List Declaration} {x : γ} :
    (ofDeclarations log).seek owner find missing = .ok x ↔ ∃ d, InForce log owner d ∧ find d.entry = some x := by
  rw [seek_ok_iff]
  constructor
  · rintro ⟨e, he, hfind⟩
    obtain ⟨d, hd, rfl⟩ := entry_ok_iff.1 he
    exact ⟨d, hd, hfind⟩
  · rintro ⟨d, hd, hfind⟩
    exact ⟨d.entry, entry_ok_iff.2 ⟨d, hd, rfl⟩, hfind⟩

/-- Why nothing is found in a class: there is none of that name, or nothing in the one in force. -/
theorem seek_inForce_error_iff {log : List Declaration} {fault : Fault} :
    (ofDeclarations log).seek owner find missing = .error fault ↔
      ((∀ d ∈ log, d.owner.name ≠ owner) ∧ fault = .unknown .owner owner) ∨
        ∃ d, InForce log owner d ∧ find d.entry = none ∧ fault = missing := by
  rw [seek_error_iff, entry_error_iff]
  refine or_congr_right ⟨?_, ?_⟩
  · rintro ⟨e, he, hfind⟩
    obtain ⟨d, hd, rfl⟩ := entry_ok_iff.1 he
    exact ⟨d, hd, hfind⟩
  · rintro ⟨d, hd, hfind⟩
    exact ⟨d.entry, entry_ok_iff.2 ⟨d, hd, rfl⟩, hfind⟩

end Seek

variable {c : Catalog} {log : List Declaration} {owner name : String} {sig : Signature} {ty : Ty} {m : Method} {f : Field}

/-- Any catalog finds what fits; that the class fits too is due to its log. -/
theorem sig_of_method (h : c.method owner name sig = .ok m) : m.name = name ∧ m.sig = sig := by
  rw [method_eq_seek, seek_ok_iff] at h
  obtain ⟨e, -, hfind⟩ := h
  simpa using List.find?_some hfind

theorem ty_of_field (h : c.field owner name ty = .ok f) : f.name = name ∧ f.ty = ty := by
  rw [field_eq_seek, seek_ok_iff] at h
  obtain ⟨e, -, hfind⟩ := h
  simpa using List.find?_some hfind

theorem method_ok_iff : (ofDeclarations log).method owner name sig = .ok m ↔
    ∃ d, InForce log owner d ∧ ∃ b, d.First (.method name sig) b ∧ m = ⟨d.owner, name, sig, b⟩ := by
  simp only [method_eq_seek, seek_inForce_ok_iff, Declaration.entry, Declaration.methods_find?_some]

/-- A method that is found is the one that was asked for. -/
theorem ref_of_method (h : (ofDeclarations log).method owner name sig = .ok m) : m.ref = ⟨owner, name, sig⟩ := by
  obtain ⟨d, hd, b, -, rfl⟩ := method_ok_iff.1 h
  rw [Method.ref, hd.1]

/-- **What a catalog answers**, by the log of its declarations. -/
structure Answers (log : List Declaration) (c : Catalog) : Prop where
  built : log.foldl put {} = c
  kept : ∀ n e, c.classes.get? n = some e ↔ ∃ d, InForce log n d ∧ e = d.entry
  ofClass : ∀ n owner, c.classNamed n = .ok owner ↔ ∃ d, InForce log n d ∧ owner = d.owner
  noClass : ∀ n e, c.classNamed n = .error e ↔ (∀ d ∈ log, d.owner.name ≠ n) ∧ e = .unknown .owner n
  ofMethod : ∀ n name sig m, c.method n name sig = .ok m ↔
    ∃ d, InForce log n d ∧ ∃ b, d.First (.method name sig) b ∧ m = ⟨d.owner, name, sig, b⟩
  noMethod : ∀ n name sig e, c.method n name sig = .error e ↔
    ((∀ d ∈ log, d.owner.name ≠ n) ∧ e = .unknown .owner n) ∨
      ∃ d, InForce log n d ∧ (∀ b, .method name sig b ∉ d.members) ∧
        e = .unknown .method (n ++ "::" ++ name ++ sig.render)
  ofField : ∀ n name ty f, c.field n name ty = .ok f ↔
    ∃ d, InForce log n d ∧ ∃ b, d.First (.field name ty) b ∧ f = ⟨d.owner, name, ty, b⟩
  noField : ∀ n name ty e, c.field n name ty = .error e ↔
    ((∀ d ∈ log, d.owner.name ≠ n) ∧ e = .unknown .owner n) ∨
      ∃ d, InForce log n d ∧ (∀ b, .field name ty b ∉ d.members) ∧
        e = .unknown .field (n ++ "." ++ name ++ ": " ++ ty.render)
  size : c.size = (log.map (·.owner.name)).toFinset.card

theorem answers_ofDeclarations (log : List Declaration) : Answers log (ofDeclarations log) where
  built := by rw [ofDeclarations, show declare = put from funext₂ declare_eq_put]
  kept n e := get?_eq_some_iff_inForce
  ofClass n owner := by
    rw [classNamed_eq_seek, seek_inForce_ok_iff]
    simp only [Declaration.entry, Option.some.injEq, eq_comm]
  noClass n e := by simp [classNamed_eq_seek, seek_inForce_error_iff]
  ofMethod n name sig m := method_ok_iff
  noMethod n name sig e := by
    simp only [method_eq_seek, seek_inForce_error_iff, Declaration.entry, Declaration.methods_find?_none]
  ofField n name ty f := by
    simp only [field_eq_seek, seek_inForce_ok_iff, Declaration.entry, Declaration.fields_find?_some]
  noField n name ty e := by
    simp only [field_eq_seek, seek_inForce_error_iff, Declaration.entry, Declaration.fields_find?_none]
  size := size_ofDeclarations log

/-- **A catalog answers from its log**: by the last declaration of a class, in that by the first member that fits, and by
nothing else in the log.  What it finds bears the names and the type that were asked for, and a method is found again
under its own reference. -/
theorem answers_from_log (log : List Declaration) :
    Answers log (ofDeclarations log) ∧
    (∀ log' n, log'.filter (·.owner.name == n) = log.filter (·.owner.name == n) →
      (ofDeclarations log').classNamed n = (ofDeclarations log).classNamed n ∧
      (∀ name sig, (ofDeclarations log').method n name sig = (ofDeclarations log).method n name sig) ∧
      ∀ name ty, (ofDeclarations log').field n name ty = (ofDeclarations log).field n name ty) ∧
    (∀ n name sig m, (ofDeclarations log).method n name sig = .ok m →
      m.ref = ⟨n, name, sig⟩ ∧ (ofDeclarations log).classNamed n = .ok m.owner ∧
        (ofDeclarations log).resolveMethod m.ref = .ok m) ∧
    ∀ n name ty f, (ofDeclarations log).field n name ty = .ok f →
      f.owner.name = n ∧ f.name = name ∧ f.ty = ty ∧ (ofDeclarations log).classNamed n = .ok f.owner := by
  have hanswers := answers_ofDeclarations log
  refine ⟨hanswers, fun log' n hsame => ?_, fun n name sig m hm => ?_, fun n name ty f hf => ?_⟩
  · have hentry := entry_congr hsame
    exact ⟨by rw [classNamed, hentry, classNamed], fun name sig => by rw [method, hentry, method],
      fun name ty => by rw [field, hentry, field]⟩
  · have href := ref_of_method hm
    obtain ⟨d, hd, b, -, rfl⟩ := (hanswers.ofMethod n name sig m).1 hm
    exact ⟨href, (hanswers.ofClass n _).2 ⟨d, hd, rfl⟩, by rw [href]; exact hm⟩
  · obtain ⟨d, hd, b, -, rfl⟩ := (hanswers.ofField n name ty f).1 hf
    exact ⟨hd.1, rfl, rfl, (hanswers.ofClass n _).2 ⟨d, hd, rfl⟩⟩

end Catalog
end Retrace
