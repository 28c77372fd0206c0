import Retrace.Proofs.Digits
import Retrace.Proofs.FlatMapping
import Retrace.Proofs.Sequence
import Retrace.Settings.Yaml
/-!
# WrittenSettings — settings survive being written down

Settings are written as a flat mapping, without a line for a bound that is missing, and read by going over the entries
from the defaults.  The two fit together for all numbers (`Settings.settings?_toYaml`): decimal digits are read as the
number they stand for, and never as a missing value.  Whether the settings may be used is asked only then, and the answer
is that of the settings themselves.
-/
namespace Retrace

/-! ## Numbers -/

namespace Yaml

theorem isWord_toDigits (n : Nat) : IsWord (Nat.toDigits 10 n) where
  ne_nil := Digits.toDigits_ne_nil 10 n
  chars c hc := by simp [isWordChar, Char.isAlphanum, Digits.isDigit_of_mem hc]

/-- **A number is read back from its digits.** -/
theorem unsigned?_toDigits (n : Nat) : unsigned? (Nat.toDigits 10 n) = some n := by
  by_cases hn : n = 0
  · rw [hn]
    rfl
  · obtain ⟨c, rest, hdigits, hzero⟩ := Digits.toDigits_head hn
    have hplus : c ≠ '+' := by
      rintro rfl
      have := Digits.isDigit_of_mem (n := n) (hdigits ▸ List.mem_cons_self)
      cases this
    have hread := Digits.read?_toDigits n
    rw [hdigits] at hread ⊢
    simp [unsigned?, hplus, hzero, hread]

theorem isNull_toDigits (n : Nat) : isNull (Nat.toDigits 10 n) = false := by
  have hspelled : ∀ w ∈ [['~'], "null".toList, "Null".toList, "NULL".toList], w.all Char.isDigit = false := by decide
  have hdigits : (Nat.toDigits 10 n).all Char.isDigit = true := List.all_eq_true.2 fun _ => Digits.isDigit_of_mem
  refine Bool.eq_false_iff.2 fun hnull => ?_
  rw [hspelled _ (List.contains_iff_mem.1 hnull)] at hdigits
  cases hdigits

namespace Leaf

variable {bound n : Nat}

theorem below?_toDigits (h : n < bound) : below? bound { text := Nat.toDigits 10 n } = some n := by
  simp [below?, unsigned?_toDigits, h]

theorem optionalBelow?_toDigits (h : n < bound) : optionalBelow? bound { text := Nat.toDigits 10 n } = some (some n) := by
  have hempty : (Nat.toDigits 10 n).isEmpty = false := List.isEmpty_eq_false_iff.2 (Digits.toDigits_ne_nil 10 n)
  simp [optionalBelow?, isMissing, hempty, isNull_toDigits, below?_toDigits h]

end Leaf

theorem adjust?_timeoutSecs (s : Settings) (n : UInt64) :
    adjust? s ("smt_timeout_secs", { text := Nat.toDigits 10 n.toNat }) = some { s with timeoutSecs := n } := by
  simp [adjust?, Leaf.below?_toDigits n.toNat_lt]

theorem adjust?_timeoutMultiplier (s : Settings) (n : UInt32) :
    adjust? s ("timeout_multiplier", { text := Nat.toDigits 10 n.toNat }) = some { s with timeoutMultiplier := n } := by
  simp [adjust?, Leaf.below?_toDigits n.toNat_lt]

theorem adjust?_maxCandidates (s : Settings) (n : UInt64) :
    adjust? s ("max_candidates", { text := Nat.toDigits 10 n.toNat }) = some { s with maxCandidates := some n } := by
  simp [adjust?, Leaf.optionalBelow?_toDigits n.toNat_lt]

/-- The line that sets a key to a number. -/
def Line.setting (key : String) (n : Nat) (hne : key.toList ≠ []) (hkey : key.toList.all isWordChar = true)
    (hreach : key.toList.length ≤ keyReach) : Line where
  key := key.toList
  value := Nat.toDigits 10 n
  isWord_key := ⟨hne, List.all_eq_true.1 hkey⟩
  isWord_value := isWord_toDigits n
  reach := hreach

theorem Line.text_setting {key : String} {n : Nat} (hne : key.toList ≠ []) (hkey : key.toList.all isWordChar = true)
    (hreach : key.toList.length ≤ keyReach) :
    (setting key n hne hkey hreach).text = (key ++ ": " ++ toString n ++ "\n").toList := by
  simp [text, setting]

end Yaml

namespace Settings

open Yaml (Line)

/-! ## Reading what was written -/

/-- The lines that settings are written in. -/
def lines (s : Settings) : List Line :=
  [.setting "smt_timeout_secs" s.timeoutSecs.toNat (by decide) (by decide) (by decide),
   .setting "timeout_multiplier" s.timeoutMultiplier.toNat (by decide) (by decide) (by decide)] ++
  s.maxCandidates.toList.map fun n => .setting "max_candidates" n.toNat (by decide) (by decide) (by decide)

theorem toList_toYaml (s : Settings) : s.toYaml.toList = s.lines.flatMap Line.text := by
  have hsecs : "smt_timeout_secs: " = "smt_timeout_secs" ++ ": " := rfl
  have hmultiplier : "timeout_multiplier: " = "timeout_multiplier" ++ ": " := rfl
  have hcandidates : "max_candidates: " = "max_candidates" ++ ": " := rfl
  unfold toYaml lines
  rw [hsecs, hmultiplier, hcandidates]
  cases s.maxCandidates <;>
    simp only [Option.toList, List.map_cons, List.map_nil, List.append_nil, List.cons_append, List.nil_append,
      List.flatMap_cons, List.flatMap_nil, Line.text_setting, String.toList_append, String.toList_empty, List.append_assoc]

/-- **Written settings are read as they were**, whether or not they may be used. -/
theorem settings?_toYaml (s : Settings) : Yaml.settings? s.toYaml.toList = some s := by
  rw [toList_toYaml, Yaml.settings?, Yaml.entries?_texts (by simp [lines])]
  obtain ⟨secs, multiplier, candidates⟩ := s
  -- without a line for them, the candidates keep their default, which is to be missing
  cases candidates <;>
    simp [lines, Line.setting, Yaml.adjust?_timeoutSecs, Yaml.adjust?_timeoutMultiplier, Yaml.adjust?_maxCandidates]

/-! ## Bounds -/

def SecsWithin (s : Settings) : Prop := 1 ≤ s.timeoutSecs.toNat ∧ s.timeoutSecs.toNat ≤ 600

def MultiplierWithin (s : Settings) : Prop := 1 ≤ s.timeoutMultiplier.toNat ∧ s.timeoutMultiplier.toNat ≤ 16

/-- **Settings that keep their bounds.** -/
structure Within (s : Settings) : Prop where
  secs : s.SecsWithin
  multiplier : s.MultiplierWithin
  candidates : s.maxCandidates ≠ some 0

/-- **The first bound that settings break**, by what is reported for it. -/
inductive FirstBroken (s : Settings) : Fault.Misconfigured → Prop
  | secs (broken : ¬ s.SecsWithin) :
      FirstBroken s (.range "smt_timeout_secs" s.timeoutSecs.toNat 1 600
        "Solver calls must be bounded by a positive timeout")
  | multiplier (secs : s.SecsWithin) (broken : ¬ s.MultiplierWithin) :
      FirstBroken s (.range "timeout_multiplier" s.timeoutMultiplier.toNat 1 16
        "Multiplier scales the base timeout for solver warm-up")
  | candidates (secs : s.SecsWithin) (multiplier : s.MultiplierWithin) (broken : s.maxCandidates = some 0) :
      FirstBroken s (.invalid "max_candidates must be at least 1 when set")

variable {s : Settings}

theorem not_secsWithin_iff : ¬ s.SecsWithin ↔ (s.timeoutSecs = 0 || 600 < s.timeoutSecs) = true := by
  simp only [SecsWithin, Bool.or_eq_true, decide_eq_true_eq, UInt64.lt_iff_toNat_lt, ← UInt64.toNat_inj,
    UInt64.reduceToNat]
  omega

theorem not_multiplierWithin_iff :
    ¬ s.MultiplierWithin ↔ (s.timeoutMultiplier = 0 || 16 < s.timeoutMultiplier) = true := by
  simp only [MultiplierWithin, Bool.or_eq_true, decide_eq_true_eq, UInt32.lt_iff_toNat_lt, ← UInt32.toNat_inj,
    UInt32.reduceToNat]
  omega

theorem SecsWithin.passes (h : s.SecsWithin) : ¬ (s.timeoutSecs = 0 || 600 < s.timeoutSecs) = true :=
  fun broken => not_secsWithin_iff.2 broken h

theorem MultiplierWithin.passes (h : s.MultiplierWithin) :
    ¬ (s.timeoutMultiplier = 0 || 16 < s.timeoutMultiplier) = true :=
  fun broken => not_multiplierWithin_iff.2 broken h

theorem Within.validate (h : s.Within) : s.validate = .ok () := by
  rw [Settings.validate, if_neg h.secs.passes, if_neg h.multiplier.passes, if_neg h.candidates]

theorem FirstBroken.validate {e : Fault.Misconfigured} (h : s.FirstBroken e) : s.validate = .error e := by
  cases h with
  | secs broken => exact if_pos (not_secsWithin_iff.1 broken)
  | multiplier secs broken =>
    rw [Settings.validate, if_neg secs.passes, if_pos (not_multiplierWithin_iff.1 broken)]
  | candidates secs multiplier broken =>
    rw [Settings.validate, if_neg secs.passes, if_neg multiplier.passes, if_pos broken]

theorem within_or_firstBroken (s : Settings) : s.Within ∨ ∃ e, s.FirstBroken e := by
  by_cases hsecs : s.SecsWithin
  · by_cases hmultiplier : s.MultiplierWithin
    · by_cases hcandidates : s.maxCandidates = some 0
      · exact .inr ⟨_, .candidates hsecs hmultiplier hcandidates⟩
      · exact .inl ⟨hsecs, hmultiplier, hcandidates⟩
    · exact .inr ⟨_, .multiplier hsecs hmultiplier⟩
  · exact .inr ⟨_, .secs hsecs⟩

/-- **A check passes just if all bounds are kept.** -/
theorem validate_ok_iff : s.validate = .ok () ↔ s.Within := by
  refine ⟨fun hok => ?_, Within.validate⟩
  rcases s.within_or_firstBroken with hwithin | ⟨e, hbroken⟩
  · exact hwithin
  · rw [hbroken.validate] at hok
    cases hok

/-- **A check reports the first bound that is broken.** -/
theorem validate_error_iff {e : Fault.Misconfigured} : s.validate = .error e ↔ s.FirstBroken e := by
  refine ⟨fun herror => ?_, FirstBroken.validate⟩
  rcases s.within_or_firstBroken with hwithin | ⟨e', hbroken⟩
  · rw [hwithin.validate] at herror
    cases herror
  · rw [hbroken.validate] at herror
    cases herror
    exact hbroken

theorem Within.solverTimeout? (h : s.Within) : s.solverTimeout? = some s.timeoutMs := by
  -- 9600 seconds at most, so that nothing comes near the end of a word
  have hproduct : s.timeoutSecs.toNat * s.timeoutMultiplier.toNat ≤ 600 * 16 :=
    Nat.mul_le_mul h.secs.2 h.multiplier.2
  exact if_pos (Nat.lt_of_le_of_lt hproduct (by decide))

/-! ## Documents -/

theorem ofYaml_toYaml (s : Settings) : ofYaml s.toYaml = s.validate.map fun _ => s := by
  rw [ofYaml, settings?_toYaml]

theorem validate_of_ofYaml {text : String} (h : ofYaml text = .ok s) : s.validate = .ok () := by
  unfold ofYaml at h
  split at h
  · cases h
  · obtain ⟨_, hok, rfl⟩ := map_ok h
    exact hok

/-- **Settings survive being written down.**  Read again, they are as they were if they pass their check; otherwise they
are refused with what the check reports, which is the first bound that they break.  Settings that were read, whatever the
document, pass their check: so the bound on a solver call can be computed. -/
theorem yaml_read_back (s : Settings) :
    (s.validate = .ok () → ofYaml s.toYaml = .ok s) ∧
    (∀ e, s.validate = .error e → ofYaml s.toYaml = .error e) ∧
    (s.validate = .ok () ↔ s.Within) ∧ (∀ e, s.validate = .error e ↔ s.FirstBroken e) ∧
    ∀ text, ofYaml text = .ok s → s.validate = .ok () ∧ s.solverTimeout? = some s.timeoutMs := by
  refine ⟨fun hok => ?_, fun e herror => ?_, validate_ok_iff, fun e => validate_error_iff, fun text htext => ?_⟩
  · rw [ofYaml_toYaml, hok]
    rfl
  · rw [ofYaml_toYaml, herror]
    rfl
  · have hok := validate_of_ofYaml htext
    exact ⟨hok, (validate_ok_iff.1 hok).solverTimeout?⟩

/-- Settings at their upper bounds. -/
def largest : Settings := { timeoutSecs := 600, timeoutMultiplier := 16, maxCandidates := some 18446744073709551615 }

/-- Settings that break two bounds. -/
def broken : Settings := { timeoutMultiplier := 4294967295, maxCandidates := some 0 }

/-- Of the two bounds that are broken the first is reported; and a document may be written in another style. -/
theorem yaml_read_back_largest :
    ofYaml largest.toYaml = .ok largest ∧
      ofYaml broken.toYaml = .error (.range "timeout_multiplier" 4294967295 1 16
        "Multiplier scales the base timeout for solver warm-up") ∧
      ofYaml "\x7btimeout_multiplier: 0x10, max_candidates: ~\x7d" = .ok { timeoutMultiplier := 16 } ∧
      solverTimeout? { timeoutMultiplier := 16 } = some 48000 := by
  have hlargest : largest.validate = .ok () := rfl
  have hbroken : broken.validate = .error (.range "timeout_multiplier" 4294967295 1 16
      "Multiplier scales the base timeout for solver warm-up") := rfl
  have hread : ofYaml "\x7btimeout_multiplier: 0x10, max_candidates: ~\x7d" = .ok { timeoutMultiplier := 16 } := rfl
  obtain ⟨-, -, -, -, hany⟩ := yaml_read_back { timeoutMultiplier := 16 }
  exact ⟨(yaml_read_back largest).1 hlargest, (yaml_read_back broken).2.1 _ hbroken, hread, (hany _ hread).2⟩

end Settings
end Retrace
