import Retrace.Proofs.Runs
/-!
# Agreement — the two halves of a recorded clause

A clause pairs an instruction with a predicate.  The recorder builds them separately, the terms of the predicate only
as they are needed and the clause of a call long after its operands were looked up.  The halves agree all the same
(`Clause.Agrees`): over the table at the end of the run, the predicate is the one that the instruction denotes.  What
carries this from the moment of recording to the end of the run is that a table never takes a term back.
-/
namespace Retrace

open Cache (Consults Extends)

/-- **A clause whose halves agree over a table**: every operand of the instruction has a place in the table, the
instruction has the right form, and with the table's terms for its operands it denotes the predicate. -/
structure Clause.Agrees (c : Cache) (cl : Clause) : Prop where
  allocated : ∀ h ∈ cl.instruction.handles, ∃ v, c.valueAt? h = some v
  form : cl.instruction.Fits
  denotes : ∃ k, cl.instruction.predicate? c k = some cl.predicate

theorem Clause.Agrees.mono {c c' : Cache} {cl : Clause} (h : cl.Agrees c) (hext : Extends c c') : cl.Agrees c' := by
  obtain ⟨k, hk⟩ := h.denotes
  refine ⟨fun x hx => ?_, h.form, k, Instruction.predicate?_mono hext hk⟩
  obtain ⟨v, hv⟩ := h.allocated x hx
  exact ⟨v, hext.valueAt? hv⟩

/-- **The clause of an action agrees with itself as soon as it is made.** -/
theorem Recorded.agrees {cat : Catalog} {a : Action} {c mid c' : Cache} {rec : Recording} {cl : Clause}
    (h : Recorded cat a c mid rec c') (hcl : rec.clause? = some cl) : cl.Agrees c' := by
  refine ⟨fun x hx => ?_, Action.instruction?_fits (h.instruction_of_clause hcl), _, h.meaning cl hcl⟩
  obtain ⟨v, hv⟩ := h.operand_value hcl hx
  exact ⟨v, h.extends.valueAt? hv⟩

namespace Attributed

/-- **Instructions and predicates agree.**  After any steps, the account of the run is true to the recorder, and the
halves of every clause that the recorder itself added since it was last cleared agree over the table it ends with. -/
theorem translated_agrees (cat : Catalog) (steps : List Step) :
    (run cat steps).recorder = Recorder.run cat steps ∧
      (run cat steps).marked.map Prod.snd = (Recorder.run cat steps).trace ∧
      ∀ cl ∈ (run cat steps).translated, cl.Agrees (Recorder.run cat steps).cache := by
  refine ⟨recorder_run cat steps, ?_, ?_⟩
  · rw [← recorder_run]
    exact (fits_run cat steps).trace
  · rw [← recorder_run]
    refine run_induction (P := fun c cs => ∀ cl ∈ cs, cl.Agrees c) (fun cl hcl => nomatch hcl) ?_ ?_ steps
    · intro rs c c' cs _ hcon hP cl hcl
      exact (hP cl hcl).mono hcon.toExtends
    · intro a c mid rec c' cs _ hrec hP cl hcl
      rcases List.mem_append.1 hcl with hold | hnew
      · exact (hP cl hold).mono (hrec.operands.toExtends.trans hrec.extends)
      · exact hrec.agrees (Option.mem_toList.1 hnew)

end Attributed

end Retrace
