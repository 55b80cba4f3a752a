import TypeScribe.Command.Run
import TypeScribe.Proofs.Annotate.Safety
import TypeScribe.Proofs.Workspace.Writing

/-!
# Annotating in place

A file is written after everything else has succeeded, so a run that fails leaves all files as they
are (`apply_eq_of_exitCode_ne_zero`). What `annotate` leaves behind is the file as it was or, in
place and after success, the bytes of its annotated text (`run_writes_annotated`). A file is
annotated only if all of it is text, so its bytes are those of the text before
(`encode_before_of_annotate_gives`), and a text that has not changed need not be written.
-/

namespace TypeScribe.Command

open Dump

/-! ## How reports are made -/

/-- A report that writes nothing leaves the workspace as it is. -/
theorem Report.apply_of_written_nil {report : Report} (h : report.written = [])
    (workspace : Workspace) : report.apply workspace = workspace := by
  rw [apply, h]
  rfl

theorem failure_exitCode (fault : Fault) : (failure fault).exitCode = 1 := by
  unfold failure
  split <;> rfl

theorem failure_written (fault : Fault) : (failure fault).written = [] := by
  unfold failure
  split <;> rfl

variable {α : Type} {result : Logged α} {report : α → Report}

theorem conclude_of_gives {value : α} (h : result.Gives value) :
    conclude result report = { report value with log := result.log } := by
  rw [conclude, show result.outcome = .ok value from h]

theorem conclude_of_error {fault : Fault} (h : result.outcome = .error fault) :
    conclude result report = { failure fault with log := result.log } := by
  rw [conclude, h]

/-- A report that never writes still does not when it is that of a computation. -/
theorem conclude_written (h : ∀ value, (report value).written = []) :
    (conclude result report).written = [] := by
  cases hresult : result.outcome with
  | ok value => rw [conclude_of_gives hresult]; exact h value
  | error fault => rw [conclude_of_error hresult]; exact failure_written fault

/-! ## What is annotated -/

/-- The annotation that a request asks for. The flags override the settings of the environment. -/
def annotated [CallStack] (host : Host) (workspace : Workspace) (path : String)
    (dump : Option String) (bindings calls closures : Bool) : Logged AnnotatedFile := do
  let settings ← Logged.ofExcept (Settings.ofEnvironment host.environment)
  let settings : Settings :=
    { settings with
      annotateBindings := bindings
      annotateCalls := calls
      annotateClosures := closures }
  workspace.annotateFile host settings path dump

/-- A fault of the environment is none that the user is told of. -/
theorem isReported_of_ofEnvironment {environment : String → Option String} {fault : Fault}
    (h : Settings.ofEnvironment environment = .error fault) : isReported fault = false := by
  unfold Settings.ofEnvironment at h
  split at h
  · cases h
    rfl
  · cases h

/-- Annotating is one computation, and then its result is written or printed. -/
theorem runAnnotate_eq [CallStack] (host : Host) (workspace : Workspace) (path : String)
    (dump : Option String) (inPlace bindings calls closures : Bool) :
    runAnnotate host workspace path dump inPlace bindings calls closures =
      conclude (annotated host workspace path dump bindings calls closures) fun file =>
        if inPlace then writeBack workspace path file else Report.printed file.after := by
  unfold runAnnotate annotated
  cases henvironment : Settings.ofEnvironment host.environment with
  | error fault =>
    change Report.escaping fault = { failure fault with log := [] }
    rw [failure, isReported_of_ofEnvironment henvironment]
    rfl
  | ok settings => rfl

/-- A source that is made of bytes has them. -/
theorem bytes_of_ofBytes_gives {name : String} {bytes : List UInt8} {tree : SyntaxTree}
    {source : SourceFile} (h : (SourceFile.ofBytes name bytes tree).Gives source) :
    source.bytes = bytes := by
  unfold SourceFile.ofBytes at h
  split at h
  · obtain ⟨-, -, h⟩ := Logged.exists_of_bind_gives h
    cases h
    rfl
  · cases h
    rfl

/-- A source file is what its path leads to. -/
theorem target_of_openSource_gives {host : Host} {workspace : Workspace} {path : String}
    {source : SourceFile} (h : (workspace.openSource host path).Gives source) :
    ∃ place, workspace.target (.ofString path) = .file place source.bytes := by
  obtain ⟨bytes, hbytes, hsource⟩ := Logged.exists_of_bind_gives h
  rw [bytes_of_ofBytes_gives hsource]
  unfold Workspace.readBytes at hbytes
  split at hbytes
  · next place present htarget =>
    cases hbytes
    exact ⟨place, htarget⟩
  · cases hbytes
  · cases hbytes

/-- The bytes of an annotated file are those of its text before. -/
theorem encode_before_of_annotate_gives [CallStack] {source : SourceFile} {root : Node}
    {settings : Settings} {file : AnnotatedFile} (h : (source.annotate root settings).Gives file) :
    Text.encode file.before = source.bytes := by
  obtain ⟨edits, -, h⟩ := Logged.exists_of_bind_gives h
  obtain ⟨after, -, h⟩ := Logged.exists_of_bind_gives h
  obtain ⟨-, -, h⟩ := Logged.exists_of_bind_gives h
  obtain ⟨before, hbefore, h⟩ := Logged.exists_of_bind_gives h
  cases h
  change SourceFile.decode source.bytes = .ok before at hbefore
  unfold SourceFile.decode at hbefore
  split at hbefore
  · next text htext =>
    cases hbefore
    exact Text.encode_of_decode? htext
  · cases hbefore

/-- What is annotated is a file, and its bytes are those of the text before. -/
theorem target_of_annotated_gives [CallStack] {host : Host} {workspace : Workspace} {path : String}
    {dump : Option String} {bindings calls closures : Bool} {file : AnnotatedFile}
    (h : (annotated host workspace path dump bindings calls closures).Gives file) :
    ∃ place, workspace.target (.ofString path) = .file place (Text.encode file.before) := by
  obtain ⟨settings, -, h⟩ := Logged.exists_of_bind_gives h
  obtain ⟨source, hsource, h⟩ := Logged.exists_of_bind_gives h
  obtain ⟨root, hannotate⟩ : ∃ root, (source.annotate root _).Gives file := by
    cases dump with
    | some dumpPath =>
      obtain ⟨root, -, hannotate⟩ := Logged.exists_of_bind_gives h
      exact ⟨root, hannotate⟩
    | none =>
      obtain ⟨root, -, hannotate⟩ := Logged.exists_of_bind_gives h
      exact ⟨root, hannotate⟩
  rw [encode_before_of_annotate_gives hannotate]
  exact target_of_openSource_gives hsource

/-! ## What a run leaves behind -/

theorem showPoint_written (root : Node) (point : Point) : (showPoint root point).written = [] := by
  unfold showPoint
  split <;> rfl

/-- A search in a dump writes nothing. -/
theorem runFind_written [CallStack] (workspace : Workspace) (path position : String)
    (file : Option String) : (runFind workspace path position file).written = [] := by
  unfold runFind
  split
  · rfl
  · rfl
  · exact conclude_written fun root => showPoint_written root _

/-- Writing a file back succeeds. -/
theorem writeBack_exitCode (workspace : Workspace) (path : String) (file : AnnotatedFile) :
    (writeBack workspace path file).exitCode = 0 := by
  unfold writeBack
  split
  · split <;> rfl
  · rfl

/-- After writing back, the path leads to the annotated text. -/
theorem writeBack_apply {workspace : Workspace} {path : String} {place : Place}
    {file : AnnotatedFile}
    (h : workspace.target (.ofString path) = .file place (Text.encode file.before)) :
    ((writeBack workspace path file).apply workspace).target (.ofString path) =
        .file place (Text.encode file.after) ∧
      ∀ other, other ≠ place →
        ((writeBack workspace path file).apply workspace).bytesAt? other =
          workspace.bytesAt? other := by
  unfold writeBack
  split
  · rw [h]
    refine ⟨Workspace.target_write h _, fun other hother => ?_⟩
    exact (Workspace.bytesAt?_write ..).trans (if_neg hother)
  · next hsame =>
    have hafter : file.after = file.before := by simpa [AnnotatedFile.changed] using hsame
    rw [hafter, Report.apply_of_written_nil rfl]
    exact ⟨h, fun _ _ => rfl⟩

/-- A run that fails writes nothing. -/
theorem written_eq_nil_of_exitCode_ne_zero [CallStack] {host : Host} {workspace : Workspace}
    {arguments : List String} (h : (run host workspace arguments).exitCode ≠ 0) :
    (run host workspace arguments).written = [] := by
  unfold run at h ⊢
  cases hreading : (read arguments).reading with
  | help => rfl
  | misuse => rfl
  | request request =>
    rw [hreading] at h
    cases request with
    | tree path depth => exact conclude_written fun _ => rfl
    | find path position file => exact runFind_written workspace path position file
    | annotate path dump inPlace bindings calls closures =>
      dsimp only [runRequest] at h ⊢
      rw [runAnnotate_eq] at h ⊢
      cases houtcome : (annotated host workspace path dump bindings calls closures).outcome with
      | error fault => rw [conclude_of_error houtcome]; exact failure_written fault
      | ok file =>
        -- Once the file is annotated, nothing that could fail is left to do.
        refine absurd ?_ h
        rw [conclude_of_gives houtcome]
        cases inPlace with
        | true => exact writeBack_exitCode workspace path file
        | false => rfl

/-- A run that fails leaves all files as they are. -/
theorem apply_eq_of_exitCode_ne_zero [CallStack] {host : Host} {workspace : Workspace}
    {arguments : List String} (h : (run host workspace arguments).exitCode ≠ 0) :
    (run host workspace arguments).apply workspace = workspace :=
  Report.apply_of_written_nil (written_eq_nil_of_exitCode_ne_zero h) workspace

/-- Each run of `annotate` either succeeds, and then leaves the bytes of the annotated text in the
file if it is in place and the file as it was otherwise, or ends in an error and changes nothing. No
other file changes in any case. -/
theorem run_writes_annotated [CallStack] (host : Host) (workspace : Workspace)
    {arguments : List String} {path : String} {dump : Option String}
    {inPlace bindings calls closures : Bool}
    (h : (read arguments).reading =
      .request (.annotate path dump inPlace bindings calls closures)) :
    (∃ file place,
      (annotated host workspace path dump bindings calls closures).Gives file ∧
      (run host workspace arguments).exitCode = 0 ∧
      workspace.target (.ofString path) = .file place (Text.encode file.before) ∧
      ((run host workspace arguments).apply workspace).target (.ofString path) =
        .file place (Text.encode (if inPlace then file.after else file.before)) ∧
      ∀ other, other ≠ place →
        ((run host workspace arguments).apply workspace).bytesAt? other =
          workspace.bytesAt? other) ∨
    ∃ fault,
      (annotated host workspace path dump bindings calls closures).outcome = .error fault ∧
      (run host workspace arguments).exitCode ≠ 0 ∧
      (run host workspace arguments).apply workspace = workspace := by
  have hrun : run host workspace arguments =
      conclude (annotated host workspace path dump bindings calls closures) fun file =>
        if inPlace then writeBack workspace path file else Report.printed file.after := by
    rw [run, h, ← runAnnotate_eq]
    rfl
  cases houtcome : (annotated host workspace path dump bindings calls closures).outcome with
  | error fault =>
    have hexit : (run host workspace arguments).exitCode ≠ 0 := by
      rw [hrun, conclude_of_error houtcome]
      exact (failure_exitCode fault).trans_ne Nat.one_ne_zero
    exact .inr ⟨fault, rfl, hexit, apply_eq_of_exitCode_ne_zero hexit⟩
  | ok file =>
    obtain ⟨place, htarget⟩ := target_of_annotated_gives houtcome
    refine .inl ⟨file, place, houtcome, ?_⟩
    rw [hrun, conclude_of_gives houtcome]
    cases inPlace with
    | true => exact ⟨writeBack_exitCode workspace path file, htarget, writeBack_apply htarget⟩
    | false => exact ⟨rfl, htarget, htarget, fun _ _ => rfl⟩

/-- A directory with a source file and its dump. -/
def closureFiles : Workspace where
  files := [(["main.swift"], Text.encode closureText), (["main.ast"], Text.encode closureDump)]

/-- A machine without a compiler. -/
def closureHost : Host where
  environment _ := none
  compile _ := .notFound
  parseSwift _ := closureTree

/-- A file is annotated in place, and its dump stays as it is. -/
theorem run_writes_annotated_closure :
    letI := CallStack.uniform 8
    let arguments := ["annotate", "main.swift", "--dump", "main.ast", "--in-place"]
    (read arguments).reading =
      .request (.annotate "main.swift" (some "main.ast") true true true true) ∧
    (run closureHost closureFiles arguments).written =
      [(["main.swift"], "let é = \x7b (x: Int) -> Box<Int> in Box(x) \x7d")] ∧
    ∃ file,
      (annotated closureHost closureFiles "main.swift" (some "main.ast") true true true).Gives
        file ∧
      ((run closureHost closureFiles arguments).apply closureFiles).target
        (.ofString "main.swift") = .file ["main.swift"] (Text.encode file.after) ∧
      ((run closureHost closureFiles arguments).apply closureFiles).bytesAt? ["main.ast"] =
        some (Text.encode closureDump) := by
  let _ := CallStack.uniform 8
  have hreading : (read ["annotate", "main.swift", "--dump", "main.ast", "--in-place"]).reading =
      .request (.annotate "main.swift" (some "main.ast") true true true true) := by decide +kernel
  have hwritten : (run closureHost closureFiles
      ["annotate", "main.swift", "--dump", "main.ast", "--in-place"]).written =
        [(["main.swift"], "let é = \x7b (x: Int) -> Box<Int> in Box(x) \x7d")] := by
    decide +kernel
  refine ⟨hreading, hwritten, ?_⟩
  rcases run_writes_annotated closureHost closureFiles hreading with
    ⟨file, place, hfile, -, hbefore, hafter, hothers⟩ | ⟨fault, -, hexit, -⟩
  · have htarget : closureFiles.target (.ofString "main.swift") =
        .file ["main.swift"] (Text.encode closureText) := by decide +kernel
    rw [htarget] at hbefore
    obtain ⟨rfl, -⟩ := Target.file.inj hbefore
    exact ⟨file, hfile, hafter, (hothers ["main.ast"] (by decide)).trans (by decide +kernel)⟩
  · cases hwritten.symm.trans (written_eq_nil_of_exitCode_ne_zero hexit)

end TypeScribe.Command
