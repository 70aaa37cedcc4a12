import Mathlib.Data.List.Basic
import Quadratics.Command.Settings
import Quadratics.Proofs.Task.Config
/-! The settings that count: the command line over the task file over the defaults, and a fault of
the file before one of the command line. -/
namespace Quadratics.Command

def Options.faults (o : Options) : List TaskError :=
  match o.level with
  | some text => Task.pairFaults ("loglevel", text)
  | none => []

def Options.document (o : Options) (text : String) : Except TaskError (List Task.Section) :=
  if o.task.isSome then Task.parse text else .ok []

/-- Every setting is the one of the command line if there is one, else what the last pair of its
key says, else the default. -/
structure Effective (o : Options) (document : List Task.Section) (s : Settings) : Prop where
  level : ((o.level <|> Task.last? "loglevel" (Task.pairsOf "solver" document)).map
    Task.level?).getD (some .error) = some s.level
  precision : (o.precision.map some <|>
    (Task.last? "precision" (Task.pairsOf "solver" document)).map Text.natural?).getD
      (some Report.defaultPrecision) = some s.precision
  verbose : o.verbose = true → s.mode = .verbose
  quiet : o.quiet = true → s.mode = .quiet
  mode : o.verbose = false → o.quiet = false →
    ((Task.last? "mode" (Task.pairsOf "solver" document)).map Task.mode?).getD (some .normal) =
      some s.mode
  logFile : ∀ stamp : String, s.logFile.map (·.path stamp) =
    (o.logFile <|> Task.last? "log_file" (Task.pairsOf "solver" document)).map fun name =>
      if name = "auto" then s!"log_{stamp}.txt" else name
  equations : s.equations =
    match o.equation with
    | some text => [("equation", text)]
    | none => Task.pairsOf "equations" document

variable {o o' : Options} {args texts : List String}

theorem readPlain_flags (h : readPlain o texts = .ok (.work o')) :
    (o'.verbose && o'.quiet) = false := by
  induction texts generalizing o with
  | nil =>
    rw [readPlain] at h
    split at h
    · cases h
    · next hflags =>
      cases h
      exact eq_false_of_ne_true hflags
  | cons text texts ih =>
    obtain ⟨next, -, hnext⟩ := bind_eq_ok.mp h
    exact ih hnext

theorem readLetters_request {letters : List Char} {request : Request}
    (h : readLetters o letters = .ok (.inr request)) : request = .help ∨ request = .version := by
  fun_induction readLetters o letters with
  | case1 => cases h
  | case2 o cs ih =>
    obtain ⟨next, -, hnext⟩ := bind_eq_ok.mp h
    exact ih next hnext
  | case3 o cs ih =>
    obtain ⟨next, -, hnext⟩ := bind_eq_ok.mp h
    exact ih next hnext
  | case4 =>
    cases h
    exact .inl rfl
  | case5 =>
    cases h
    exact .inr rfl
  | case6 => cases h

theorem read_flags (h : read o args = .ok (.work o')) : (o'.verbose && o'.quiet) = false := by
  fun_induction read o args with
  | case1 => exact readPlain_flags h
  | case2 => exact readPlain_flags h
  | case3 | case7 | case8 | case11 | case12 =>
    rename_i ih
    obtain ⟨next, -, hnext⟩ := bind_eq_ok.mp h
    exact ih next hnext
  | case5 o text rest letters hletters request hrequest =>
    cases h
    rcases readLetters_request hrequest with hwork | hwork
    · cases hwork
    · cases hwork
  | case6 o text rest letters hletters next hnext ih => exact ih h
  | case4 | case9 | case10 | case13 | case14 | case15 | case16 => cases h

variable {document : List Task.Section} {c : Config}

theorem levelOver_checked (hc : Task.ReflectsSections document c) :
    Checked (fun level => ((o.level <|>
      Task.last? "loglevel" (Task.pairsOf "solver" document)).map Task.level?).getD (some .error) =
        some level) o.faults (o.levelOver c) := by
  rw [Options.faults, Options.levelOver]
  cases ho : o.level with
  | none => exact .ok (hc.level.getD_eq .error)
  | some text => exact Task.parse_checked text

theorem path_ofText (stamp name : String) :
    (LogFile.ofText name).path stamp = if name = "auto" then s!"log_{stamp}.txt" else name := by
  rw [LogFile.ofText]
  split
  · rfl
  · rfl

theorem effective_of_reflects (hflags : (o.verbose && o.quiet) = false)
    (hc : Task.ReflectsSections document c) {level : Level}
    (hlevel : ((o.level <|> Task.last? "loglevel" (Task.pairsOf "solver" document)).map
      Task.level?).getD (some .error) = some level) :
    Effective o document {
      level := level
      precision := (o.precision <|> c.precision).getD Report.defaultPrecision
      mode := o.modeOver c
      logFile := (o.logFile <|> c.logFile).map .ofText
      equations := o.equationsOver c } where
  level := hlevel
  precision := by
    cases o.precision with
    | none => exact hc.precision.getD_eq Report.defaultPrecision
    | some n => rfl
  verbose hverbose := if_pos hverbose
  quiet hquiet := by
    rw [hquiet, Bool.and_true] at hflags
    simp [Options.modeOver, hflags, hquiet]
  mode hverbose hquiet := by
    simp only [Options.modeOver, hverbose, hquiet]
    exact hc.mode.getD_eq .normal
  logFile stamp := by
    rw [Task.holds_some.mp hc.logFile, Option.map_map]
    exact congrArg (Option.map · _) (funext fun name => path_ofText stamp name)
  equations := by
    rw [← hc.equations]
    rfl

theorem taskConfig_eq (o : Options) (text : String) :
    taskConfig (o.task.map fun _ => .ok text) = (o.document text).bind Config.ofSections := by
  rw [Options.document]
  cases o.task with
  | none => rfl
  | some path => rfl

theorem resolve_checked (hflags : (o.verbose && o.quiet) = false) {text : String}
    (hd : o.document text = .ok document) :
    Checked (Effective o document) (Task.faults document ++ o.faults)
      (Settings.resolve o (o.task.map fun _ => .ok text)) := by
  rw [Settings.resolve, taskConfig_eq, hd]
  refine (Task.ofSections_checked document).bind fun c hc => ?_
  rw [← List.append_nil o.faults]
  exact (levelOver_checked hc).bind fun level hlevel => .ok (effective_of_reflects hflags hc hlevel)

theorem resolve_unparsed {text : String} {e : TaskError} (hd : o.document text = .error e) :
    (∃ line, e = .parse line) ∧
      Settings.resolve o (o.task.map fun _ => .ok text) = .error e := by
  refine ⟨?_, ?_⟩
  · rw [Options.document] at hd
    split at hd
    · exact Task.parse_eq_error hd
    · cases hd
  · rw [Settings.resolve, taskConfig_eq, hd]
    rfl

/-- A file that cannot be read as sections is refused before anything else, then the first fault of
the file, then that of the command line; without any the settings are those that count. -/
theorem resolve_effective (h : Request.ofArguments args = .ok (.work o)) (text : String) :
    match o.document text with
    | .error e =>
      (∃ line, e = .parse line) ∧ Settings.resolve o (o.task.map fun _ => .ok text) = .error e
    | .ok document =>
      match (Task.faults document ++ o.faults).head? with
      | some e => Settings.resolve o (o.task.map fun _ => .ok text) = .error e
      | none => ∃ s, Settings.resolve o (o.task.map fun _ => .ok text) = .ok s ∧
          Effective o document s := by
  cases hd : o.document text with
  | error e => exact resolve_unparsed hd
  | ok document =>
    have hchecked := resolve_checked (read_flags h) hd
    dsimp only
    cases hfaults : Task.faults document ++ o.faults with
    | nil =>
      rw [hfaults] at hchecked
      exact hchecked.exists_of_nil
    | cons e es => exact hchecked.eq_error (by rw [hfaults]; rfl)

/-- A title without pairs, a wrong mode in front of a section that does not exist, a wrong level on
the command line, and sections that take turns. -/
theorem resolve_effective_cases :
    (let o : Options := { task := some "t", level := some "loud" }
     Request.ofArguments ["--task", "t", "--loglevel=loud"] = .ok (.work o) ∧
      Settings.resolve o (o.task.map fun _ => .ok "solver") = .error (.parse "solver")) ∧
    (let o : Options := { task := some "t", verbose := true, level := some "loud" }
     let text := "solver\n mode: loud\nextra\n a: b"
     Request.ofArguments ["-v", "--task=t", "--loglevel", "loud"] = .ok (.work o) ∧
      Settings.resolve o (o.task.map fun _ => .ok text) = .error (.invalidValue "mode" "loud")) ∧
    (let o : Options := { equation := some "x", level := some " Loud" }
     Request.ofArguments ["x", "--loglevel", " Loud"] = .ok (.work o) ∧
      Settings.resolve o (o.task.map fun _ => .ok "") = .error (.invalidValue "loglevel" "loud")) ∧
    let o : Options := { task := some "t", quiet := true, logFile := some "auto" }
    let document : List Task.Section :=
      [("equations", [("a", "x = 1")]), ("solver", [("precision", "4"), ("mode", "verbose")]),
       ("equations", [("a", "x")]), ("solver", [("loglevel", "INFO"), ("precision", "5")])]
    let text := "equations\na: x = 1\nsolver\nprecision: 4\nmode: verbose\nequations\na: x\n" ++
      "solver\nloglevel: INFO\nprecision: 5\n"
    Request.ofArguments ["--task", "t", "-q", "--log-file", "auto"] = .ok (.work o) ∧
      o.document text = .ok document ∧
      ∃ s, Settings.resolve o (o.task.map fun _ => .ok text) = .ok s ∧ Effective o document s ∧
        s = ⟨.info, 5, .quiet, some .stamped, [("a", "x = 1"), ("a", "x")]⟩ := by
  refine ⟨?_, ?_, ?_, ?_⟩
  · intro o
    have hargs : Request.ofArguments ["--task", "t", "--loglevel=loud"] = .ok (.work o) := by
      decide +kernel
    have hd : o.document "solver" = .error (.parse "solver") := by decide +kernel
    have h := resolve_effective hargs "solver"
    rw [hd] at h
    exact ⟨hargs, h.2⟩
  · intro o text
    have hargs : Request.ofArguments ["-v", "--task=t", "--loglevel", "loud"] = .ok (.work o) := by
      decide +kernel
    have hd : o.document text =
        .ok [("solver", [("mode", "loud")]), ("extra", [("a", "b")])] := by decide +kernel
    have h := resolve_effective hargs text
    rw [hd] at h
    exact ⟨hargs, h⟩
  · intro o
    have hargs : Request.ofArguments ["x", "--loglevel", " Loud"] = .ok (.work o) := by
      decide +kernel
    have hfaults : (Task.faults [] ++ o.faults).head? = some (.invalidValue "loglevel" "loud") := by
      decide +kernel
    have h := resolve_effective hargs ""
    rw [show o.document "" = .ok [] from rfl] at h
    dsimp only at h
    rw [hfaults] at h
    exact ⟨hargs, h⟩
  · intro o document text
    have hargs :
        Request.ofArguments ["--task", "t", "-q", "--log-file", "auto"] = .ok (.work o) := by
      decide +kernel
    have hd : o.document text = .ok document := by decide +kernel
    have hfaults : (Task.faults document ++ o.faults).head? = none := by decide +kernel
    have h := resolve_effective hargs text
    rw [hd] at h
    dsimp only at h
    rw [hfaults] at h
    obtain ⟨s, hs, heffective⟩ := h
    have hsettings : Settings.resolve o (o.task.map fun _ => .ok text) =
        .ok ⟨.info, 5, .quiet, some .stamped, [("a", "x = 1"), ("a", "x")]⟩ := by decide +kernel
    exact ⟨hargs, hd, s, hs, heffective, Except.ok.inj (hs.symm.trans hsettings)⟩

end Quadratics.Command
