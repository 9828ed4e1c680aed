import CodeListing.Command.Run
import CodeListing.Proofs.Trace

/-! # Loading, step by step

A source is loaded in three steps, and each of them may be the last: the file is read, its path is
resolved, and the resolved path is asked for a name.  There is one equation for each way this can go
(`load_of_unread`, `load_of_unresolved`, `load_of_nameless`, `load_of_named`), so the resolver is
used once when the file could be read and not at all otherwise, and nothing is written or said
(`loadSource_isSilent`). -/

namespace CodeListing

/-- The log record of a text that was read from a path. -/
def readingRecord (path text : String) : Event :=
  .record .debug ("Read " ++ Numeral.text text.length ++ " character(s) from " ++ path)

/-- The log record of a path that was resolved. -/
def resolvingRecord (path : String) (resolved : Path) : Event :=
  .record .debug ("Resolved " ++ path ++ " to " ++ resolved.text)

section
variable {fs : FileSystem} {resolver : Resolver} {path text answer : String}

theorem resolvePath_of_error {f : Fault} (h : resolver path = .error f) :
    resolvePath resolver path = ⟨[.resolve path], .error (resolutionFailure path f)⟩ := by
  simp only [resolvePath, h]

theorem resolvePath_of_ok (h : resolver path = .ok answer) :
    resolvePath resolver path = ⟨[.resolve path], .ok (.ofText answer)⟩ := by
  simp only [resolvePath, h]

theorem load_of_unread {e : Failure} (hread : fs.readText path = .error e) :
    Source.load fs resolver path = ⟨[], .error e⟩ := by
  unfold Source.load
  rw [hread, Trace.bind_of_error rfl]
  rfl

theorem load_of_unresolved {f : Fault} (hread : fs.readText path = .ok text)
    (hresolve : resolver path = .error f) :
    Source.load fs resolver path =
      ⟨[readingRecord path text, .resolve path], .error (resolutionFailure path f)⟩ := by
  have hpath := resolvePath_of_error hresolve
  unfold Source.load
  rw [hread, Trace.bind_of_ok rfl, Trace.bind_of_ok (Trace.log_result ..), hpath,
    Trace.bind_of_error rfl]
  rfl

theorem load_of_nameless (hread : fs.readText path = .ok text)
    (hresolve : resolver path = .ok answer) (hname : (Path.ofText answer).name = "") :
    Source.load fs resolver path =
      ⟨[readingRecord path text, .resolve path],
        .error (.user (.nameless (Path.ofText answer).text))⟩ := by
  have hpath := resolvePath_of_ok hresolve
  unfold Source.load
  rw [hread, Trace.bind_of_ok rfl, Trace.bind_of_ok (Trace.log_result ..), hpath,
    Trace.bind_of_ok rfl, if_pos hname]
  rfl

theorem load_of_named (hread : fs.readText path = .ok text) (hresolve : resolver path = .ok answer)
    (hname : (Path.ofText answer).name ≠ "") :
    Source.load fs resolver path =
      ⟨[readingRecord path text, .resolve path, resolvingRecord path (.ofText answer)],
        .ok ⟨.ofText answer, (Path.ofText answer).name, text⟩⟩ := by
  have hpath := resolvePath_of_ok hresolve
  unfold Source.load
  rw [hread, Trace.bind_of_ok rfl, Trace.bind_of_ok (Trace.log_result ..), hpath,
    Trace.bind_of_ok rfl, if_neg hname, Trace.bind_of_ok (Trace.log_result ..)]
  rfl

theorem load_isSilent {e : Event} (he : e ∈ (Source.load fs resolver path).events) :
    e.isOnOutput = false ∧ e.line? = none := by
  cases hread : fs.readText path with
  | error f =>
      rw [load_of_unread hread] at he
      cases he
  | ok text =>
      have hsilent : ∀ x ∈ [readingRecord path text, .resolve path],
          x.isOnOutput = false ∧ x.line? = none := by
        simp [readingRecord, Event.isOnOutput, Event.line?]
      cases hresolve : resolver path with
      | error f =>
          rw [load_of_unresolved hread hresolve] at he
          exact hsilent e he
      | ok answer =>
          by_cases hname : (Path.ofText answer).name = ""
          · rw [load_of_nameless hread hresolve hname] at he
            exact hsilent e he
          · rw [load_of_named hread hresolve hname] at he
            rcases List.mem_append.mp (show e ∈ [_, _] ++ [_] from he) with he | he
            · exact hsilent e he
            · obtain rfl := List.mem_singleton.mp he
              exact ⟨rfl, rfl⟩

end

section
variable (fs : FileSystem) (resolver : Resolver) (setting : Setting Path)

theorem loadSource_isSilent :
    ∀ e ∈ (loadSource fs resolver setting).events, e.isOnOutput = false ∧ e.line? = none := by
  intro e he
  cases setting with
  | given path => exact load_isSilent he
  | dropped => cases he

end

/-- A file system with a single file. -/
def FileSystem.single (name : String) (content : List UInt8) : FileSystem :=
  ⟨.directory [(name, .file content)], []⟩

end CodeListing
