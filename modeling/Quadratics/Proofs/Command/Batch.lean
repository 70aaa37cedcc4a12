import Mathlib.Data.List.Basic
import Quadratics.Command.Run
import Quadratics.Proofs.Steps
/-! A run over several equations prints what each of them prints on its own. -/
namespace Quadratics.Command

def Rejects (source : String) : Prop := ∃ e, evaluate source = .error (.rejected e)

def Unprintable (s : Settings) (e : Evaluation) : Prop :=
  (∃ x ∈ Report.numbers e.solution, Report.isPrintable s.precision x = false) ∨
  (s.mode = .verbose ∧ ∃ t ∈ e.reduced, Report.isPrintable s.precision t.coefficient = false)

/-- The equation breaks the run: it is neither solved nor refused, or cannot be reported. -/
inductive Breaks (s : Settings) (source : String) : Breakdown → Prop where
  | negation (h : evaluate source = .error .overflow) : Breaks s source .negation
  | places {e : Evaluation} (h : evaluate source = .ok e) (hn : Unprintable s e) :
    Breaks s source .places

def Abandons (s : Settings) (source : String) : Prop := ∃ breakdown, Breaks s source breakdown

/-- A log file is asked for, and the system refuses to create it. -/
def LogRefused (world : Surroundings Id) (s : Settings) (reason : String) : Prop :=
  s.level ≠ .off ∧ ∃ file ∈ s.logFile, world.create (file.path world.stamp) = .error reason

def heading (s : Settings) (name : String) : String :=
  if 1 < s.equations.length then s!"[{name}]\n" else ""

/-- The run over one equation alone, all else the same. -/
def alone (world : Surroundings Id) (o : Options) (s : Settings) (equation : String × String) :
    Outcome :=
  workLogged world o { s with equations := [equation] }

def shown (outputs : List Output) : String := joined (outputs.filterMap Output.onStdout?)

theorem shown_append (us vs : List Output) : shown (us ++ vs) = shown us ++ shown vs := by
  rw [shown, List.filterMap_append, joined, List.map_append, String.join_append]
  rfl

/-- The levels that let nothing through but errors. -/
def Restrained (level : Level) : Prop := level = .off ∨ level = .error

theorem level_of_isShown {level : Level} (h : Restrained level) {r : Record}
    (hr : r.isShown level = true) : r.level = .error := by
  rcases h with rfl | rfl
  · cases r <;> cases hr
  · cases r with
    | error message => rfl
    | warn message | info message | debug origin message => cases hr

theorem shown_logged {level : Level} (h : Restrained level) (rs : List Record) :
    shown (Output.logged level rs) = "" := by
  have hnone : (Output.logged level rs).filterMap Output.onStdout? = [] := by
    rw [List.filterMap_eq_nil_iff]
    intro output hmem
    obtain ⟨r, hr, rfl⟩ := List.mem_map.mp hmem
    exact if_pos (level_of_isShown h (List.mem_filter.mp hr).2)
  rw [shown, hnone]
  rfl

theorem shown_out (text : String) : shown [.out text] = text ++ "\n" := by
  have hjoin : shown [.out text] = String.join [text ++ "\n"] := rfl
  rw [hjoin, String.join_cons, String.join_nil, String.append_empty]

theorem shown_err (lines : List String) : shown (lines.map .err) = "" := by
  have hnone : (lines.map Output.err).filterMap Output.onStdout? = [] := by
    rw [List.filterMap_map]
    exact List.filterMap_eq_nil_iff.mpr fun _ _ => rfl
  rw [shown, hnone]
  rfl

variable {s : Settings} {source : String} {equation : String × String} {breakdown : Breakdown}

theorem lines_eq_ok_iff (s : Settings) (source : String) (e : Evaluation) :
    (∃ lines, Report.lines s.mode s.precision source e = .ok lines) ↔ ¬ Unprintable s e := by
  unfold Report.lines Unprintable
  split
  · next hnumbers =>
    have hno : ¬ ∃ x ∈ Report.numbers e.solution, Report.isPrintable s.precision x = false := by
      simpa using hnumbers
    split
    · next hmode => simp [hmode, hno]
    · next hmode => simp [hmode, hno]
    · next hmode =>
      split
      · next hterms =>
        refine iff_of_true ⟨_, rfl⟩ (not_or_intro hno ?_)
        simpa [hmode] using hterms
      · next hterms =>
        exact iff_of_false (by simp) (not_not_intro (.inr ⟨hmode, by simpa using hterms⟩))
  · next hnumbers =>
    exact iff_of_false (by simp) (not_not_intro (.inl (by simpa using hnumbers)))

theorem abandons_iff_overflow (hp : s.precision ≤ Report.mostPlaces) :
    Abandons s source ↔ evaluate source = .error .overflow := by
  have hprintable (x : Float) : Report.isPrintable s.precision x = true := by
    rw [Report.isPrintable, decide_eq_true hp, Bool.or_true]
  have hall (e : Evaluation) : ¬ Unprintable s e := by
    simp [Unprintable, hprintable]
  refine ⟨fun ⟨_, h⟩ => ?_, fun h => ⟨_, .negation h⟩⟩
  cases h with
  | negation h => exact h
  | places h hn => exact absurd hn (hall _)

theorem solveOne_breaks (h : Breaks s source breakdown) :
    (solveOne s source).2 = .abandoned breakdown := by
  unfold solveOne
  cases h with
  | negation h => rw [h]
  | @places e h hn =>
    rw [h]
    cases hlines : Report.lines s.mode s.precision source e with
    | ok lines => exact absurd hn ((lines_eq_ok_iff s source e).mp ⟨lines, hlines⟩)
    | error lines => simp only [hlines]

theorem solveOne_rejects (h : Rejects source) : (solveOne s source).2 = .rejected := by
  obtain ⟨e, he⟩ := h
  rw [solveOne, he]

theorem solveOne_solves (ha : ¬ Abandons s source) (hr : ¬ Rejects source) :
    (solveOne s source).2 = .solved := by
  unfold solveOne
  cases he : evaluate source with
  | ok e =>
    have hprintable : ¬ Unprintable s e := fun hnot => ha ⟨_, .places he hnot⟩
    obtain ⟨lines, hlines⟩ := (lines_eq_ok_iff s source e).mpr hprintable
    simp only [hlines]
  | error failure =>
    cases failure with
    | rejected e => exact absurd ⟨e, he⟩ hr
    | overflow => exact absurd ⟨_, .negation he⟩ ha

theorem shown_rejects (hl : Restrained s.level) (h : Rejects source) :
    shown (solveOne s source).1 = "" := by
  obtain ⟨e, he⟩ := h
  rw [solveOne, he]
  simp only [shown_append, shown_logged hl, shown_err, String.append_empty]

def line (s : Settings) (equation : String × String) : String :=
  heading s equation.1 ++ shown (solveOne s equation.2).1

theorem shown_title (s : Settings) (name : String) : shown (title s name) = heading s name := by
  unfold title heading
  split
  · rw [shown_out]
    exact String.append_assoc
  · rfl

/-- Where a run stands behind the equations that are done. -/
structure Reached (s : Settings) (done : List (String × String)) (p : Progress) : Prop where
  outputs : shown p.outputs = String.join (done.map (line s))
  failures : p.failures = 0 ↔ ∀ equation ∈ done, ¬ Rejects equation.2

theorem reached_nil : Reached s [] {} := ⟨rfl, by simp⟩

variable {done : List (String × String)} {p : Progress}

theorem shown_next (h : Reached s done p) (equation : String × String) :
    shown (p.outputs ++ title s equation.1 ++ (solveOne s equation.2).1) =
      String.join ((done ++ [equation]).map (line s)) := by
  rw [shown_append, shown_append, h.outputs, shown_title, List.map_append, String.join_append,
    List.map_singleton, String.join_cons, String.join_nil, String.append_empty,
    String.append_assoc, line]

theorem solveNext_reached (h : Reached s done p) (ha : ¬ Abandons s equation.2) :
    ∃ p', solveNext s p equation = .ok p' ∧ Reached s (done ++ [equation]) p' := by
  by_cases hr : Rejects equation.2
  · refine ⟨{ p with
      outputs := p.outputs ++ title s equation.1 ++ (solveOne s equation.2).1
      failures := p.failures + 1 }, ?_, shown_next h equation, ?_⟩
    · rw [solveNext]
      simp only [solveOne_rejects hr]
    · exact iff_of_false (Nat.succ_ne_zero _) fun hall =>
        hall equation (List.mem_append_right _ List.mem_cons_self) hr
  · refine ⟨{ p with outputs := p.outputs ++ title s equation.1 ++ (solveOne s equation.2).1 },
      ?_, shown_next h equation, ?_⟩
    · rw [solveNext]
      simp only [solveOne_solves ha hr]
    · rw [List.forall_mem_append, List.forall_mem_singleton]
      exact h.failures.trans (and_iff_left hr).symm

theorem solveNext_broken (h : Reached s done p) (hb : Breaks s equation.2 breakdown) :
    ∃ written, solveNext s p equation = .error (written, breakdown) ∧
      shown written = String.join ((done ++ [equation]).map (line s)) := by
  refine ⟨p.outputs ++ title s equation.1 ++ (solveOne s equation.2).1, ?_, shown_next h equation⟩
  rw [solveNext]
  simp only [solveOne_breaks hb]

theorem foldlM_solveNext_reached {equations : List (String × String)} (h : Reached s done p)
    (ha : ∀ equation ∈ equations, ¬ Abandons s equation.2) :
    ∃ p', equations.foldlM (solveNext s) p = .ok p' ∧ Reached s (done ++ equations) p' := by
  induction equations generalizing done p with
  | nil => exact ⟨p, rfl, by rwa [List.append_nil]⟩
  | cons equation equations ih =>
    rw [List.forall_mem_cons] at ha
    obtain ⟨q, hq, hreached⟩ := solveNext_reached h ha.1
    obtain ⟨p', hp', hrest⟩ := ih hreached ha.2
    exact ⟨p', (foldlM_cons_of_ok hq equations).trans hp', by rwa [List.append_cons]⟩

theorem batch_reached (hl : Restrained s.level)
    (ha : ∀ equation ∈ s.equations, ¬ Abandons s equation.2) :
    (batch s).stdout = String.join (s.equations.map (line s)) ∧
      ((∃ equation ∈ s.equations, Rejects equation.2) → (batch s).exit = 1) ∧
      ((∀ equation ∈ s.equations, ¬ Rejects equation.2) → (batch s).exit = 0) := by
  obtain ⟨p, hp, hreached⟩ := foldlM_solveNext_reached reached_nil ha
  rw [List.nil_append] at hreached
  rw [batch, hp]
  refine ⟨?_, fun ⟨equation, hmem, hr⟩ => ?_, fun hr => ?_⟩
  · exact (shown_append _ _).trans
      (by rw [hreached.outputs, shown_logged hl, String.append_empty])
  · exact if_neg fun hzero => hreached.failures.mp hzero equation hmem hr
  · exact if_pos (hreached.failures.mpr hr)

/-- A run that is broken prints what is printed by then, and the rest is not looked at. -/
theorem batch_broken {rest : List (String × String)}
    (hs : s.equations = done ++ equation :: rest)
    (hdone : ∀ equation ∈ done, ¬ Abandons s equation.2) (hb : Breaks s equation.2 breakdown) :
    (batch s).stdout = String.join ((done ++ [equation]).map (line s)) ∧
      (batch s).exit = 101 ∧ (batch s).breakdown = some breakdown := by
  obtain ⟨p, hp, hreached⟩ := foldlM_solveNext_reached reached_nil hdone
  obtain ⟨written, hwritten, hshown⟩ := solveNext_broken hreached hb
  have hrun : s.equations.foldlM (solveNext s) {} = .error (written, breakdown) := by
    rw [hs, foldlM_append_of_ok hp, foldlM_cons_of_error hwritten]
  rw [batch, hrun]
  exact ⟨hshown, rfl, rfl⟩

theorem stdout_batch_singleton (hl : Restrained s.level) (equation : String × String) :
    (batch { s with equations := [equation] }).stdout = shown (solveOne s equation.2).1 := by
  have hline : String.join ([equation].map (line { s with equations := [equation] })) =
      shown (solveOne s equation.2).1 := by
    rw [List.map_singleton, String.join_cons, String.join_nil, String.append_empty]
    exact String.empty_append
  have hsplit : ({ s with equations := [equation] } : Settings).equations =
      [] ++ equation :: [] := rfl
  by_cases ha : Abandons { s with equations := [equation] } equation.2
  · obtain ⟨_, hb⟩ := ha
    exact (batch_broken hsplit (List.forall_mem_nil _) hb).1.trans hline
  · exact (batch_reached (s := { s with equations := [equation] }) hl
      (fun _ hmem => List.mem_singleton.mp hmem ▸ ha)).1.trans hline

variable {world : Surroundings Id} {o : Options} {args : List String} {reason : String}

theorem stdout_closing (world : Surroundings Id) (outcome : Outcome) :
    (closing world outcome : Outcome).stdout = outcome.stdout := by
  cases h : outcome.breakdown with
  | none => rw [closing, h]; rfl
  | some breakdown =>
    rw [closing, h]
    exact (shown_append _ _).trans ((congrArg _ (shown_err [_])).trans String.append_empty)

theorem exit_closing (world : Surroundings Id) (outcome : Outcome) :
    (closing world outcome : Outcome).exit = outcome.exit := by
  cases h : outcome.breakdown with
  | none => rw [closing, h]; rfl
  | some breakdown => rw [closing, h]; rfl

theorem stdout_failed (text : String) : (failed text).stdout = "" := shown_err [text]

theorem stderr_failed (text : String) : (failed text).stderr = text ++ "\n" := by
  have hjoin : (failed text).stderr = String.join [text ++ "\n"] := rfl
  rw [hjoin, String.join_cons, String.join_nil, String.append_empty]

theorem workLogged_refused (h : LogRefused world s reason) :
    workLogged world o s = failed s!"Error: {(TaskError.io reason).message}" := by
  obtain ⟨hlevel, file, hfile, hcreate⟩ := h
  unfold workLogged
  split
  · next hoff => exact absurd hoff hlevel
  · next hnone _ => cases hnone.symm.trans hfile
  · next file' hfile' _ =>
    cases hfile'.symm.trans hfile
    dsimp only [bind]
    rw [hcreate]
    rfl

theorem workLogged_batch (hlog : ∀ reason, ¬ LogRefused world s reason)
    (hd : o.demonstration = none) (hne : s.equations ≠ []) :
    (workLogged world o s).outputs = (closing world (batch s) : Outcome).outputs ∧
      (workLogged world o s).exit = (closing world (batch s) : Outcome).exit := by
  have hwork : work o s = batch s := by
    rw [work, hd]
    exact if_neg (by simpa using hne)
  unfold workLogged
  rw [hwork]
  split
  · exact ⟨rfl, rfl⟩
  · exact ⟨rfl, rfl⟩
  · next file hfile hlevel =>
    dsimp only [bind]
    cases hcreate : world.create (file.path world.stamp) with
    | error reason => exact absurd ⟨hlevel, file, hfile, hcreate⟩ (hlog reason)
    | ok => exact ⟨rfl, rfl⟩

theorem run_of_resolve (hargs : Request.ofArguments args = .ok (.work o))
    (hs : Settings.resolve o (o.task.map world.read) = .ok s) :
    run world args = workLogged world o s := by
  have htask : o.task.mapM world.read = o.task.map world.read := by
    cases o.task with
    | none => rfl
    | some path => rfl
  rw [run, hargs]
  dsimp only
  rw [workOn, htask]
  dsimp only [bind]
  rw [hs]

theorem stdout_workLogged (hlog : ∀ reason, ¬ LogRefused world s reason)
    (hd : o.demonstration = none) (hne : s.equations ≠ []) :
    (workLogged world o s : Outcome).stdout = (batch s).stdout :=
  (congrArg shown (workLogged_batch hlog hd hne).1).trans (stdout_closing world _)

theorem exit_workLogged (hlog : ∀ reason, ¬ LogRefused world s reason)
    (hd : o.demonstration = none) (hne : s.equations ≠ []) :
    (workLogged world o s : Outcome).exit = (batch s).exit :=
  (workLogged_batch hlog hd hne).2.trans (exit_closing world _)

theorem stdout_alone (hl : Restrained s.level) (hlog : ∀ reason, ¬ LogRefused world s reason)
    (hd : o.demonstration = none) (equation : String × String) :
    (alone world o s equation).stdout = shown (solveOne s equation.2).1 :=
  (stdout_workLogged (s := { s with equations := [equation] }) hlog hd
    (List.cons_ne_nil equation [])).trans (stdout_batch_singleton hl equation)

theorem stdout_alone_rejects (hl : Restrained s.level) (hd : o.demonstration = none)
    (hr : Rejects equation.2) : (alone world o s equation).stdout = "" := by
  by_cases hlog : ∃ reason, LogRefused world s reason
  · obtain ⟨reason, hrefused⟩ := hlog
    have halone : alone world o s equation = failed s!"Error: {(TaskError.io reason).message}" :=
      workLogged_refused (s := { s with equations := [equation] }) hrefused
    rw [halone, stdout_failed]
  · rw [stdout_alone hl (not_exists.mp hlog) hd]
    exact shown_rejects hl hr

/-- A run that is broken ends with the words of the system, and with the code for it. -/
theorem run_broken {rest : List (String × String)}
    (hargs : Request.ofArguments args = .ok (.work o))
    (hs : Settings.resolve o (o.task.map world.read) = .ok s) (hl : Restrained s.level)
    (hlog : ∀ reason, ¬ LogRefused world s reason) (hd : o.demonstration = none)
    (he : s.equations = done ++ equation :: rest)
    (hdone : ∀ equation ∈ done, ¬ Abandons s equation.2) (hb : Breaks s equation.2 breakdown) :
    let printed (equation : String × String) :=
      heading s equation.1 ++ (alone world o s equation).stdout
    let outcome : Outcome := run world args
    outcome.stdout = String.join ((done ++ [equation]).map printed) ∧ outcome.exit = 101 ∧
      outcome.outputs.getLast? = some (.err (world.breakdown breakdown)) := by
  intro printed outcome
  have hne : s.equations ≠ [] := by simp [he]
  have hrun : outcome = workLogged world o s := run_of_resolve hargs hs
  have hprinted : printed = line s := funext fun equation =>
    congrArg (heading s equation.1 ++ ·) (stdout_alone hl hlog hd equation)
  obtain ⟨hstdout, hexit, hbreakdown⟩ := batch_broken he hdone hb
  rw [hprinted, hrun, stdout_workLogged hlog hd hne, exit_workLogged hlog hd hne,
    (workLogged_batch hlog hd hne).1, closing, hbreakdown]
  exact ⟨hstdout, hexit, List.getLast?_concat⟩

/-- Runs with nothing but errors in the log. Where the log file that is asked for cannot be created,
nothing is solved. Else a run prints what its equations print on their own, one after the other, and
fails just if one is refused. What is refused prints nothing. -/
theorem run_batch (hargs : Request.ofArguments args = .ok (.work o))
    (hs : Settings.resolve o (o.task.map world.read) = .ok s) (hl : Restrained s.level)
    (hd : o.demonstration = none) (hne : s.equations ≠ []) :
    let printed (equation : String × String) :=
      heading s equation.1 ++ (alone world o s equation).stdout
    let outcome : Outcome := run world args
    (∀ reason, LogRefused world s reason →
      outcome.stdout = "" ∧ outcome.stderr = s!"Error: cannot read task: {reason}\n" ∧
        outcome.exit = 2) ∧
    ((∀ reason, ¬ LogRefused world s reason) →
      (∀ equation ∈ s.equations, ¬ Abandons s equation.2) →
      outcome.stdout = String.join (s.equations.map printed) ∧
      ((∃ equation ∈ s.equations, Rejects equation.2) → outcome.exit = 1) ∧
      ((∀ equation ∈ s.equations, ¬ Rejects equation.2) → outcome.exit = 0)) ∧
    ∀ equation : String × String, Rejects equation.2 →
      (alone world o s equation).stdout = "" := by
  intro printed outcome
  have hrun : outcome = workLogged world o s := run_of_resolve hargs hs
  refine ⟨fun reason hrefused => ?_, fun hlog ha => ?_,
    fun equation => stdout_alone_rejects hl hd⟩
  · rw [hrun, workLogged_refused hrefused]
    refine ⟨stdout_failed _, (stderr_failed _).trans (congrArg (· ++ "\n") ?_), rfl⟩
    exact String.append_assoc.symm
  · have hprinted : printed = line s := funext fun equation =>
      congrArg (heading s equation.1 ++ ·) (stdout_alone hl hlog hd equation)
    rw [hprinted, hrun, stdout_workLogged hlog hd hne, exit_workLogged hlog hd hne]
    exact batch_reached hl ha

/-- A refusal between two solutions, and two solutions without a place for the log. -/
theorem run_batch_cases :
    (let text := "solver\nmode: quiet\nequations\na: x = 1\nb: x = $\nc: x = 2\n"
     let world : Surroundings Id := ⟨fun _ => .ok text, fun _ => .ok (), "now", Breakdown.message⟩
     let o : Options := { task := some "t", level := some "off" }
     let s : Settings := ⟨.off, 2, .quiet, none, [("a", "x = 1"), ("b", "x = $"), ("c", "x = 2")]⟩
     let args := ["--task", "t", "--loglevel", "off"]
     let outcome : Outcome := run world args
     Request.ofArguments args = .ok (.work o) ∧
       Settings.resolve o (o.task.map world.read) = .ok s ∧
       outcome.stdout = "[a]\nX = 1\n[b]\n[c]\nX = 2\n" ∧ outcome.exit = 1 ∧
       (alone world o s ("b", "x = $")).stdout = "") ∧
    (let text := "equations\na: x = 1\nb: x = 2\n"
     let world : Surroundings Id :=
       ⟨fun _ => .ok text, fun _ => .error "full", "now", Breakdown.message⟩
     let o : Options := { task := some "t", logFile := some "l" }
     let s : Settings := ⟨.error, 2, .normal, some (.named "l"), [("a", "x = 1"), ("b", "x = 2")]⟩
     let args := ["--task", "t", "--log-file", "l"]
     let outcome : Outcome := run world args
     Request.ofArguments args = .ok (.work o) ∧
       Settings.resolve o (o.task.map world.read) = .ok s ∧
       outcome.stdout = "" ∧ outcome.stderr = "Error: cannot read task: full\n" ∧
       outcome.exit = 2) := by
  constructor
  · intro text world o s args outcome
    have hargs : Request.ofArguments args = .ok (.work o) := by decide +kernel
    have hs : Settings.resolve o (o.task.map world.read) = .ok s := by decide +kernel
    have hlog : ∀ reason, ¬ LogRefused world s reason := fun _ h => h.1 rfl
    have hrefused : Rejects "x = $" := ⟨⟨.unknownCharacter '$', some 4⟩, by decide +kernel⟩
    have hverdicts : ∀ equation ∈ s.equations, evaluate equation.2 ≠ .error .overflow := by
      decide +kernel
    obtain ⟨-, hrun, halone⟩ := run_batch hargs hs (.inl rfl) rfl (by decide)
    obtain ⟨hstdout, hfailed, -⟩ := hrun hlog fun equation hmem =>
      (abandons_iff_overflow (by decide)).not.mpr (hverdicts equation hmem)
    exact ⟨hargs, hs, hstdout.trans (by decide +kernel),
      hfailed ⟨("b", "x = $"), by decide, hrefused⟩, halone ("b", "x = $") hrefused⟩
  · intro text world o s args outcome
    have hargs : Request.ofArguments args = .ok (.work o) := by decide +kernel
    have hs : Settings.resolve o (o.task.map world.read) = .ok s := by decide +kernel
    obtain ⟨hrefused, -⟩ := run_batch hargs hs (.inr rfl) rfl (by decide)
    exact ⟨hargs, hs, hrefused "full" ⟨by decide, .named "l", rfl, rfl⟩⟩

/-- Two equations with a solution each, and a log file in a directory that is not there: nothing is
printed, and the code is not that of a run without refusals. -/
theorem run_log_refused :
    let text := "equations\n a: x = 1\n b: x = 2\n"
    let missing := "No such file or directory (os error 2)"
    let world : Surroundings Id :=
      ⟨fun _ => .ok text, fun _ => .error missing, "now", Breakdown.message⟩
    let o : Options := { task := some "task.txt", quiet := true, logFile := some "logs/run.log" }
    let s : Settings :=
      ⟨.error, 2, .quiet, some (.named "logs/run.log"), [("a", "x = 1"), ("b", "x = 2")]⟩
    let args := ["--task", "task.txt", "-q", "--log-file", "logs/run.log"]
    let outcome : Outcome := run world args
    Request.ofArguments args = .ok (.work o) ∧
      Settings.resolve o (o.task.map world.read) = .ok s ∧
      (∀ equation ∈ s.equations, (evaluate equation.2).isOk) ∧
      String.join (s.equations.map (line s)) = "[a]\nX = 1\n[b]\nX = 2\n" ∧
      outcome.stdout = "" ∧ outcome.exit = 2 ∧
      outcome.stdout ≠ String.join (s.equations.map fun equation =>
        heading s equation.1 ++ (alone world o s equation).stdout) := by
  decide +kernel

end Quadratics.Command
