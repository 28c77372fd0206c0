import Retrace.Fault
/-!
# Settings

How long a solver may take, and how many candidates one search may try.  Settings are checked before use, in a fixed
order: the first broken bound is the one reported.
-/
namespace Retrace

/-- Things that are checked before use. -/
class Checked (α : Type) where
  check : α → Except Fault.Misconfigured Unit
  title : String := "Config"

structure Settings where
  /-- Base bound on a solver call, in seconds. -/
  timeoutSecs : UInt64 := 3
  /-- Factor on the base bound. -/
  timeoutMultiplier : UInt32 := 4
  /-- Bound on the candidates tried in one search. -/
  maxCandidates : Option UInt64 := none
  deriving DecidableEq

namespace Settings

/-- The first bound that the settings break. -/
def validate (s : Settings) : Except Fault.Misconfigured Unit :=
  if s.timeoutSecs = 0 || 600 < s.timeoutSecs then
    .error (.range "smt_timeout_secs" s.timeoutSecs.toNat 1 600 "Solver calls must be bounded by a positive timeout")
  else if s.timeoutMultiplier = 0 || 16 < s.timeoutMultiplier then
    .error (.range "timeout_multiplier" s.timeoutMultiplier.toNat 1 16
      "Multiplier scales the base timeout for solver warm-up")
  else if s.maxCandidates = some 0 then .error (.invalid "max_candidates must be at least 1 when set")
  else .ok ()

def timeoutMs (s : Settings) : Nat := s.timeoutSecs.toNat * s.timeoutMultiplier.toNat * 1000

/-- Bound on a solver call; none when its seconds exceed 64 bits. -/
def solverTimeout? (s : Settings) : Option Nat :=
  if s.timeoutSecs.toNat * s.timeoutMultiplier.toNat < UInt64.size then some s.timeoutMs else none

end Settings

instance : Checked Settings where
  check := Settings.validate
  title := "GenerationConfig"

instance : Checked Unit where
  check _ := .ok ()

end Retrace
