import ScopedCheck.Compiler.Invocation
import ScopedCheck.Proofs.Fallible
/-! # Which compilers were started

A result that shows no failure of the system is that of a compiler that was started on the config. -/

namespace ScopedCheck

namespace Execution

variable {request : ExecutionRequest}

theorem compiler_ofRun (paths : CompilerPaths) (kind : CompilerKind) (reason : String)
    (run : ProgramRun) :
    (ofRun paths kind reason run).compiler = kind ∧ (ofRun paths kind reason run).attempts = [kind] := by
  unfold ofRun
  split
  · exact ⟨rfl, rfl⟩
  · cases run <;> exact ⟨rfl, rfl⟩

/-- Only a program that came to its end shows no failure of the system. -/
theorem exists_ended_of_ofRun {paths : CompilerPaths} {kind : CompilerKind} {reason : String}
    {run : ProgramRun} (h : (ofRun paths kind reason run).systemFailure? = none) :
    ∃ stdout stderr ending, run = .ended stdout stderr ending ∧
      ofRun paths kind reason run = ofEnding kind reason stdout stderr ending := by
  unfold ofRun at h ⊢
  split at h
  · cases h
  · cases run with
    | refused fault => cases h
    | lost words => cases h
    | overdue => cases h
    | ended stdout stderr ending => exact ⟨stdout, stderr, ending, rfl, rfl⟩

/-- A program that a compiler was content with reported no errors. -/
theorem errors_ofRun {paths : CompilerPaths} {kind : CompilerKind} {reason : String} {run : ProgramRun}
    (h : (ofRun paths kind reason run).outcome = .success) :
    (ofRun paths kind reason run).findings.errors = [] := by
  have hsettled : (ofRun paths kind reason run).systemFailure? = none := by rw [systemFailure?, h]
  obtain ⟨stdout, stderr, ending, -, hended⟩ := exists_ended_of_ofRun hsettled
  rw [hended] at h ⊢
  simp only [ofEnding, Outcome.classify] at h ⊢
  split at h
  · cases h
  · rename_i hnone
    simpa using hnone

/-- The result of running compilers is that of one of them, with all attempts. -/
theorem exists_ofRun (request : ExecutionRequest) (runs : CompilerKind → ProgramRun) :
    ∃ kind reason attempts, (ofRuns request runs).value =
      { ofRun request.paths kind reason (runs kind) with attempts } ∧ kind ∈ attempts := by
  let first := ofRun request.paths request.selection.kind request.selection.reason
    (runs request.selection.kind)
  let second := ofRun request.paths .standard (fallbackReason request first) (runs .standard)
  obtain ⟨-, hattempts⟩ : first.compiler = _ ∧ first.attempts = _ := compiler_ofRun ..
  obtain ⟨-, hattempts'⟩ : second.compiler = _ ∧ second.attempts = _ := compiler_ofRun ..
  by_cases hfallback : wantsFallback request first = true
  · refine ⟨.standard, fallbackReason request first, first.attempts ++ second.attempts, ?_, ?_⟩
    · simp only [ofRuns]
      rw [if_pos hfallback]
      rfl
    · rw [hattempts']
      simp
  · refine ⟨request.selection.kind, request.selection.reason, first.attempts, ?_, ?_⟩
    · simp only [ofRuns]
      rw [if_neg hfallback]
      rfl
    · rw [hattempts]
      simp

/-- Compilers that were content in the end reported no errors. -/
theorem errors_ofRuns {runs : CompilerKind → ProgramRun}
    (h : (ofRuns request runs).value.outcome = .success) :
    (ofRuns request runs).value.findings.errors = [] := by
  obtain ⟨kind, reason, attempts, hvalue, -⟩ := exists_ofRun request runs
  rw [hvalue] at h ⊢
  exact errors_ofRun h

end Execution

namespace Invocation

variable {tree : FileTree} {workingDir config : Path} {paths : CompilerPaths} {kind : CompilerKind}

/-- A compiler that was started was given what the config said. -/
theorem document_of?_eq_some {i : Invocation} (h : of? tree workingDir config paths kind = some i) :
    i.document = (tree.readText config).toOption.getD "" := by
  obtain ⟨binary, -, h⟩ := Option.bind_eq_some_iff.mp h
  obtain ⟨program, -, h⟩ := Option.bind_eq_some_iff.mp h
  obtain rfl := Option.some.inj h
  rfl

/-- A compiler that came to its end was started. -/
theorem exists_of_runOf {timeoutMs : Nat} {stdout stderr : Content} {ending : Ending}
    (h : runOf tree workingDir config paths timeoutMs kind = .ended stdout stderr ending) :
    ∃ i, of? tree workingDir config paths kind = some i := by
  unfold runOf at h
  split at h
  · cases h
  · rename_i binary hbinary
    split at h
    · rename_i program hprogram
      simp [of?, hbinary, hprogram, Except.toOption]
    · cases h

/-- Among invocations up to a signal is each of them, or one that sent a signal. -/
theorem mem_upToSignal {started : List Invocation} {i : Invocation} (h : i ∈ started) :
    i ∈ upToSignal started ∨ ∃ j ∈ upToSignal started, j.signal.isSome = true := by
  induction started with
  | nil => cases h
  | cons first rest ih =>
      rw [upToSignal]
      by_cases hsignal : first.signal.isSome = true
      · rw [if_pos hsignal]
        exact Or.inr ⟨first, List.mem_singleton_self first, hsignal⟩
      · rw [if_neg hsignal]
        rcases List.mem_cons.mp h with rfl | h
        · exact Or.inl (List.mem_cons_self ..)
        · rcases ih h with hmem | ⟨j, hj, hjsignal⟩
          · exact Or.inl (List.mem_cons_of_mem _ hmem)
          · exact Or.inr ⟨j, List.mem_cons_of_mem _ hj, hjsignal⟩

end Invocation

/-- The compiler that a result without a failure of the system comes from was started on the config. -/
theorem exists_started_of_execute {tree : FileTree} {workingDir config : Path}
    {request : ExecutionRequest} {e : Execution} {started : List Invocation}
    (h : (execute tree workingDir config request).value = (e, started))
    (hfailure : e.systemFailure? = none) :
    ∃ i, Invocation.of? tree workingDir config request.paths e.compiler = some i ∧
      (i ∈ started ∨ ∃ j ∈ started, j.signal.isSome = true) := by
  have hvalue : (execute tree workingDir config request).value =
      let e := (Execution.ofRuns request
        (Invocation.runOf tree workingDir config request.paths request.timeoutMs)).value
      (e, Invocation.upToSignal
        (e.attempts.filterMap (Invocation.of? tree workingDir config request.paths))) := rfl
  rw [hvalue] at h
  obtain ⟨rfl, rfl⟩ := Prod.mk.inj h
  obtain ⟨kind, reason, attempts, hsame, hattempt⟩ := Execution.exists_ofRun request
    (Invocation.runOf tree workingDir config request.paths request.timeoutMs)
  rw [hsame] at hfailure ⊢
  obtain ⟨stdout, stderr, ending, hended, -⟩ := Execution.exists_ended_of_ofRun hfailure
  obtain ⟨i, hi⟩ := Invocation.exists_of_runOf hended
  refine ⟨i, ?_, Invocation.mem_upToSignal (List.mem_filterMap.mpr ⟨kind, hattempt, hi⟩)⟩
  rw [(Execution.compiler_ofRun ..).1]
  exact hi

end ScopedCheck
