import Retrace.Proofs.Drafts
import Retrace.Proofs.Meaning
/-!
# FreshIds — the ids that a test gives out are new

New references and appended actions may come in any order, and an action may define a reference under any id, also one
far ahead of the count.  Appending looks at that id alone, but an action speaks of other references too, some of them
inside others.  All of them have ids below the count (`Allotment.Fresh`), as long as each was given out before or is the
result of an earlier action (`Allotment.Sourced`).

Where the count would go is a matter of numbers (`Draft.Request.countAfter`).  If that is no 32-bit word, the request
fails and nothing changes (`Draft.Request.perform_outcome`).
-/
namespace Retrace

/-- What occurs in a reference besides itself: its source or base, and what occurs in that. -/
def Reference.parts : Reference → List Reference
  | .instanceField _ _ source _ => source :: source.parts
  | .element _ _ base _ => base :: base.parts
  | .var _ _ | .null _ _ | .constant _ _ _ | .staticField _ _ _ | .array _ _ => []

/-- What occurs in an action besides its result. -/
def Action.mentioned (a : Action) : List Reference := a.result.parts ++ a.operands.flatMap fun r => r :: r.parts

/-! ## Requests -/

namespace Draft

inductive Request where
  /-- A new reference with the type and the kind of a given one. -/
  | fresh (like : Reference)
  | push (action : Action)
  deriving DecidableEq

namespace Request

/-- Makes a request; only a new reference is given out. -/
def perform : Request → M (Option Reference)
  | .fresh like => some <$> Draft.fresh fun id => like.withId id
  | .push action => (fun _ => none) <$> Draft.push action

/-- The number that a request takes the count to: past the new id, or past the id that the action defines. -/
def countAfter (count : Nat) : Request → Nat
  | .fresh _ => count + 1
  | .push action => max count (action.result.id.val.toNat + 1)

def Fits (t : Test) (request : Request) : Prop := request.countAfter t.nextRef.toNat < UInt32.size

instance (t : Test) (request : Request) : Decidable (request.Fits t) := inferInstanceAs (Decidable (_ < _))

def added : Request → List Action
  | .fresh _ => []
  | .push action => [action]

def reply (next : UInt32) : Request → Option Reference
  | .fresh like => some (like.withId ⟨next⟩)
  | .push _ => none

/-- **A request that is met**: the count moves as it should, and nothing but the action is appended. -/
structure Met (request : Request) (d d' : Draft) : Prop where
  actions : d'.test.actions = d.test.actions ++ request.added
  count : d'.test.nextRef.toNat = request.countAfter d.test.nextRef.toNat

variable {d : Draft}

theorem perform_fresh (like : Reference) :
    (Fits d.test (.fresh like) → ∃ d', perform (.fresh like) d = .ok (some (like.withId ⟨d.test.nextRef⟩)) d' ∧
      Met (.fresh like) d d') ∧
    (¬ Fits d.test (.fresh like) → perform (.fresh like) d = .error .idsExhausted d) := by
  simp only [Fits, countAfter, perform, Functor.map, EStateM.map, fresh_eq]
  by_cases hlast : d.test.nextRef = Test.lastId
  · have hfull : ¬ d.test.nextRef.toNat + 1 < UInt32.size := by
      rw [hlast]
      decide
    refine ⟨fun hfits => absurd hfits hfull, fun _ => ?_⟩
    rw [if_pos hlast]
  · obtain ⟨hnext, hfits⟩ := toNat_succ hlast
    refine ⟨fun _ => ?_, fun hfull => absurd hfits hfull⟩
    rw [if_neg hlast]
    exact ⟨_, rfl, (List.append_nil _).symm, hnext⟩

theorem perform_push (action : Action) :
    (Fits d.test (.push action) → ∃ d', perform (.push action) d = .ok none d' ∧ Met (.push action) d d') ∧
    (¬ Fits d.test (.push action) → perform (.push action) d = .error .idsExhausted d) := by
  simp only [Fits, countAfter, perform, Functor.map, EStateM.map, push_eq]
  by_cases hid : action.result.id.val < d.test.nextRef
  · -- the id was taken already, so that the count stays
    have hcount := Nat.max_eq_left (Nat.succ_le_of_lt (UInt32.lt_iff_toNat_lt.1 hid))
    rw [hcount, if_pos hid]
    exact ⟨fun _ => ⟨_, rfl, rfl, hcount.symm⟩, fun hfull => absurd d.test.nextRef.toNat_lt hfull⟩
  · have hcount := Nat.max_eq_right (Nat.le_succ_of_le (Nat.not_lt.1 (mt UInt32.lt_iff_toNat_lt.2 hid)))
    rw [hcount, if_neg hid]
    by_cases hlast : action.result.id.val = Test.lastId
    · have hfull : ¬ action.result.id.val.toNat + 1 < UInt32.size := by
        rw [hlast]
        decide
      refine ⟨fun hfits => absurd hfits hfull, fun _ => ?_⟩
      rw [if_pos hlast]
    · obtain ⟨hnext, hfits⟩ := toNat_succ hlast
      refine ⟨fun _ => ?_, fun hfull => absurd hfits hfull⟩
      rw [if_neg hlast]
      exact ⟨_, rfl, rfl, hnext.trans hcount.symm⟩

/-- **Everything that a request can do**: it is met if the count stays a word, and else it fails and nothing changes. -/
theorem perform_outcome (request : Request) (d : Draft) :
    (request.Fits d.test → ∃ d', request.perform d = .ok (request.reply d.test.nextRef) d' ∧ request.Met d d') ∧
    (¬ request.Fits d.test → request.perform d = .error .idsExhausted d) := by
  cases request with
  | fresh like => exact perform_fresh like
  | push action => exact perform_push action

end Request
end Draft

/-! ## Any requests -/

open Draft (Request)

/-- A test under construction, and the references that it has given out. -/
structure Allotment where
  draft : Draft := {}
  given : List Reference := []

namespace Allotment

variable {s : Allotment} {request : Request}

def serve (s : Allotment) (request : Request) : Allotment :=
  match request.perform s.draft with
  | .ok reply draft => ⟨draft, s.given ++ reply.toList⟩
  | .error _ draft => { s with draft }

def after (requests : List Request) : Allotment := requests.foldl serve {}

def Known (s : Allotment) (q : Reference) : Prop := q ∈ s.given ∨ ∃ b ∈ s.draft.test.actions, b.result = q

/-- All that an appended action speaks of, its result apart, is known by then; that result may have any id. -/
def Sourced (s : Allotment) : List Request → Prop
  | [] => True
  | request :: rest =>
    (request.Fits s.draft.test → ∀ a ∈ request.added, ∀ q ∈ a.mentioned, s.Known q) ∧ (s.serve request).Sourced rest

instance (s : Allotment) (q : Reference) : Decidable (s.Known q) := inferInstanceAs (Decidable (_ ∨ _))

instance decidableSourced : ∀ (requests : List Request) (s : Allotment), Decidable (s.Sourced requests)
  | [], _ => .isTrue trivial
  | request :: rest, s =>
    have := decidableSourced rest (s.serve request)
    inferInstanceAs (Decidable (_ ∧ _))

/-- **The count is above every id in use**: those given out, and those of all that occurs in an action. -/
structure Fresh (s : Allotment) : Prop where
  given : ∀ q ∈ s.given, q.id.val < s.draft.test.nextRef
  occurring : ∀ a ∈ s.draft.test.actions, ∀ q ∈ a.result :: a.mentioned, q.id.val < s.draft.test.nextRef

theorem serve_cases (s : Allotment) (request : Request) :
    (request.Fits s.draft.test ∧ request.Met s.draft (s.serve request).draft ∧
      (s.serve request).given = s.given ++ (request.reply s.draft.test.nextRef).toList) ∨
    s.serve request = s := by
  obtain ⟨hmet, hfails⟩ := request.perform_outcome s.draft
  by_cases hfits : request.Fits s.draft.test
  · obtain ⟨d, hok, hmet⟩ := hmet hfits
    refine .inl ⟨hfits, ?_⟩
    rw [serve, hok]
    exact ⟨hmet, rfl⟩
  · refine .inr ?_
    rw [serve, hfails hfits]

theorem nextRef_serve_le (s : Allotment) (request : Request) :
    s.draft.test.nextRef ≤ (s.serve request).draft.test.nextRef := by
  rcases s.serve_cases request with ⟨-, hmet, -⟩ | hsame
  · rw [UInt32.le_iff_toNat_le, hmet.count]
    cases request with
    | fresh like => exact Nat.le_succ _
    | push action => exact Nat.le_max_left _ _
  · rw [hsame]
    exact UInt32.le_refl _

theorem nextRef_foldl_le : ∀ (requests : List Request) (s : Allotment),
    s.draft.test.nextRef ≤ (requests.foldl serve s).draft.test.nextRef
  | [], _ => UInt32.le_refl _
  | request :: rest, s => UInt32.le_trans (s.nextRef_serve_le request) (nextRef_foldl_le rest (s.serve request))

theorem Fresh.known (h : s.Fresh) {q : Reference} (hq : s.Known q) : q.id.val < s.draft.test.nextRef := by
  rcases hq with hgiven | ⟨b, hb, rfl⟩
  · exact h.given q hgiven
  · exact h.occurring b hb b.result List.mem_cons_self

theorem Fresh.serve (h : s.Fresh)
    (hsourced : request.Fits s.draft.test → ∀ a ∈ request.added, ∀ q ∈ a.mentioned, s.Known q) :
    (s.serve request).Fresh := by
  have hle := s.nextRef_serve_le request
  rcases s.serve_cases request with ⟨hfits, hmet, hgiven⟩ | hsame
  · -- what was below the count stays below it; a new id, and that of a new result, are what the count moves past
    refine ⟨fun q hq => ?_, fun a ha q hq => ?_⟩
    · rw [hgiven] at hq
      rcases List.mem_append.1 hq with hq | hq
      · exact UInt32.lt_of_lt_of_le (h.given q hq) hle
      · rw [UInt32.lt_iff_toNat_lt, hmet.count]
        cases request with
        | fresh like =>
          rw [List.mem_singleton.1 hq, Reference.id_withId]
          exact Nat.lt_succ_self _
        | push action => cases hq
    · rw [hmet.actions] at ha
      rcases List.mem_append.1 ha with ha | ha
      · exact UInt32.lt_of_lt_of_le (h.occurring a ha q hq) hle
      · rcases List.mem_cons.1 hq with rfl | hq
        · rw [UInt32.lt_iff_toNat_lt, hmet.count]
          cases request with
          | fresh like => cases ha
          | push action =>
            rw [List.mem_singleton.1 ha]
            exact Nat.lt_of_lt_of_le (Nat.lt_succ_self _) (Nat.le_max_right _ _)
        · exact UInt32.lt_of_lt_of_le (h.known (hsourced hfits a ha q hq)) hle
  · rw [hsame]
    exact h

theorem Fresh.foldl : ∀ (requests : List Request) {s : Allotment}, s.Fresh → s.Sourced requests →
    (requests.foldl Allotment.serve s).Fresh
  | [], _, h, _ => h
  | _ :: rest, _, h, hsourced => foldl rest (h.serve hsourced.1) hsourced.2

theorem fresh_new : Fresh {} := ⟨List.forall_mem_nil _, List.forall_mem_nil _⟩

/-- **Ids that a test gives out are new.**  After any requests that are sourced, the count is above every id that occurs
in the actions, at any depth, and a new reference has an id that was not given out before and occurs nowhere.  The count
never goes down; it goes where the next request takes it, unless that is no word: then nothing changes. -/
theorem ids_fresh (requests : List Request) (hsourced : Sourced {} requests) :
    (∀ a ∈ (after requests).draft.test.actions, ∀ q ∈ a.result :: a.mentioned,
      q.id.val < (after requests).draft.test.nextRef) ∧
    (∀ more, (after requests).draft.test.nextRef ≤ (after (requests ++ more)).draft.test.nextRef) ∧
    (∀ like r d, (Request.fresh like).perform (after requests).draft = .ok (some r) d →
      (∀ q ∈ (after requests).given, r.id ≠ q.id) ∧
      ∀ a ∈ (after requests).draft.test.actions, ∀ q ∈ a.result :: a.mentioned, r.id ≠ q.id) ∧
    ∀ request : Request,
      (request.Fits (after requests).draft.test → ∃ d,
        request.perform (after requests).draft = .ok (request.reply (after requests).draft.test.nextRef) d ∧
        request.Met (after requests).draft d) ∧
      (¬ request.Fits (after requests).draft.test →
        request.perform (after requests).draft = .error .idsExhausted (after requests).draft) := by
  have hfresh : (after requests).Fresh := fresh_new.foldl requests hsourced
  refine ⟨hfresh.occurring, fun more => ?_, fun like r d hok => ?_,
    fun request => request.perform_outcome (after requests).draft⟩
  · rw [after, after, List.foldl_append]
    exact nextRef_foldl_le more _
  · -- the new id is the count itself, and all ids in use are below that
    have hid : r.id.val = (after requests).draft.test.nextRef := by
      obtain ⟨hmet, hfails⟩ := (Request.fresh like).perform_outcome (after requests).draft
      by_cases hfits : (Request.fresh like).Fits (after requests).draft.test
      · obtain ⟨d', hok', -⟩ := hmet hfits
        rw [hok] at hok'
        cases hok'
        rw [Reference.id_withId]
      · rw [hfails hfits] at hok
        cases hok
    have hne : ∀ q : Reference, q.id.val < (after requests).draft.test.nextRef → r.id ≠ q.id := by
      intro q hlt heq
      rw [← heq, hid] at hlt
      exact UInt32.lt_irrefl _ hlt
    exact ⟨fun q hq => hne q (hfresh.given q hq), fun a ha q hq => hne q (hfresh.occurring a ha q hq)⟩

/-- A result far ahead of the count, an element of an array in one of its fields, and a result without a successor. -/
def jumping : List Request :=
  let box : Reference := .var ⟨4000000000⟩ (.object "Box")
  let items : FieldRef := ⟨"Box", "items", .array .int, false⟩
  let content : Reference := .instanceField ⟨4000000001⟩ (.array .int) box items
  [.fresh (.var ⟨0⟩ .int), .push (.literal (.var ⟨0⟩ .int) (.scalar (.int 3))), .push (.mock box (.object "Box")),
   .fresh content, .push (.assign (.element ⟨7⟩ .int content 2) (.var ⟨0⟩ .int)),
   .push (.mock (.var ⟨4294967295⟩ (.object "Box")) (.object "Box"))]

/-- The last action is not appended, and the next id is behind that of the field. -/
theorem ids_fresh_jumping :
    Sourced {} jumping ∧ (after jumping).draft.test.actions.length = 3 ∧
      (after jumping).draft.test.nextRef = 4000000002 ∧
      (∀ a ∈ (after jumping).draft.test.actions, ∀ q ∈ a.result :: a.mentioned, q.id.val < 4000000002) ∧
      ∃ d, (Request.fresh (.var ⟨0⟩ .int)).perform (after jumping).draft = .ok (some (.var ⟨4000000002⟩ .int)) d := by
  have hsourced : Sourced {} jumping := by decide
  have hnext : (after jumping).draft.test.nextRef = 4000000002 := by decide
  obtain ⟨hoccurring, -, -, hrequest⟩ := ids_fresh jumping hsourced
  rw [hnext] at hoccurring
  obtain ⟨d, hok, -⟩ := (hrequest (.fresh (.var ⟨0⟩ .int))).1 (by decide)
  rw [hnext] at hok
  exact ⟨hsourced, by decide, hnext, hoccurring, d, hok⟩

end Allotment
end Retrace
