import Mathlib.Data.Option.Basic
import Mathlib.Tactic.SplitIfs
import Quadratics.Proofs.Steps
import Quadratics.Task.Config
/-! What a task file sets: the last value given for each key, and the first fault if there is
one. -/
namespace Quadratics.Task

def pairsOf (title : String) (document : List Section) : List (String × String) :=
  (document.filter (·.1 = title)).flatMap (·.2)

def last? (key : String) (pairs : List (String × String)) : Option String :=
  ((pairs.filter (·.1 = key)).map (·.2)).getLast?

/-- Levels are named in any case and with blanks around the name. -/
def smallTrimmed (text : String) : String := String.ofList (Text.lower (Text.trim text.toList))

def levelNames : List (String × Level) :=
  [("debug", .debug), ("info", .info), ("warn", .warn), ("error", .error), ("off", .off),
   ("none", .off)]

def level? (text : String) : Option Level := levelNames.lookup (smallTrimmed text)

def modeNames : List (String × Mode) :=
  [("normal", .normal), ("verbose", .verbose), ("quiet", .quiet)]

def mode? (text : String) : Option Mode := modeNames.lookup text

/-- The keys of a solver section, each with the values it takes. -/
def IsSetting (key value : String) : Prop :=
  (key = "loglevel" ∧ (level? value).isSome) ∨
  (key = "precision" ∧ (Text.natural? value).isSome) ∨
  (key = "mode" ∧ (mode? value).isSome) ∨
  (key = "log_file" ∧ value ≠ "")

instance (key value : String) : Decidable (IsSetting key value) :=
  inferInstanceAs (Decidable (_ ∨ _))

def quoted (key value : String) : String := if key = "loglevel" then smallTrimmed value else value

def pairFaults (pair : String × String) : List TaskError :=
  if IsSetting pair.1 pair.2 then [] else [.invalidValue pair.1 (quoted pair.1 pair.2)]

def sectionFaults (s : Section) : List TaskError :=
  if s.1 = "solver" then s.2.flatMap pairFaults
  else if s.1 = "equations" then []
  else [.invalidValue "section" s.1]

/-- All that is wrong with a file, in file order. -/
def faults (document : List Section) : List TaskError := document.flatMap sectionFaults

variable {key : String} {pairs : List (String × String)} {title : String}
  {document : List Section}

theorem pairsOf_concat (s : Section) :
    pairsOf title (document ++ [s]) =
      pairsOf title document ++ if s.1 = title then s.2 else [] := by
  rw [pairsOf, List.filter_append, List.flatMap_append]
  by_cases h : s.1 = title
  · simp [h, pairsOf]
  · simp [h, pairsOf]

theorem parse_eq_error {text : String} {e : TaskError} (h : parse text = .error e) :
    ∃ line, e = .parse line := by
  rw [parse] at h
  split at h
  next found left hsections =>
  split at h
  · cases h
  · cases h
    exact ⟨_, rfl⟩

theorem ofText_eq (text : String) :
    Level.ofText text =
      match level? text with
      | some level => .ok level
      | none => .error (smallTrimmed text) := by
  rw [Level.ofText, level?, smallTrimmed]
  generalize String.ofList (Text.lower (Text.trim text.toList)) = name
  split_ifs with hdebug hinfo hwarn herror hoff
  · subst hdebug
    rfl
  · subst hinfo
    rfl
  · subst hwarn
    rfl
  · subst herror
    rfl
  · rcases hoff with rfl | rfl
    · rfl
    · rfl
  · rw [not_or] at hoff
    simp [levelNames, List.lookup_cons, beq_eq_false_iff_ne.mpr, hdebug, hinfo, hwarn, herror, hoff]

theorem ofName?_eq (name : String) : Mode.ofName? name = mode? name := by
  rw [Mode.ofName?, mode?]
  by_cases hnormal : name = "normal"
  · subst hnormal
    rfl
  by_cases hverbose : name = "verbose"
  · subst hverbose
    rfl
  by_cases hquiet : name = "quiet"
  · subst hquiet
    rfl
  simp [modeNames, List.lookup_cons, beq_eq_false_iff_ne.mpr, Mode.name, eq_comm, hnormal, hverbose,
    hquiet]

def Holds {α : Type} (key : String) (read : String → Option α) (settings : List (String × String))
    (field : Option α) : Prop :=
  field.map some = (last? key settings).map read

section Holds

variable {α : Type} {read : String → Option α} {value : String}

theorem holds_concat_self {a : α} (h : read value = some a) :
    Holds key read (pairs ++ [(key, value)]) (some a) := by
  rw [Holds, last?, List.filter_append, List.map_append, List.getLast?_append]
  simp [h]

theorem Holds.concat_of_ne {field : Option α} {other : String} (h : Holds key read pairs field)
    (hne : other ≠ key) : Holds key read (pairs ++ [(other, value)]) field := by
  have hlast : last? key (pairs ++ [(other, value)]) = last? key pairs := by
    rw [last?, List.filter_append, List.filter_cons_of_neg (by simpa using hne), List.filter_nil,
      List.append_nil, last?]
  rw [Holds, hlast]
  exact h

theorem holds_some {field : Option String} : Holds key some pairs field ↔ field = last? key pairs :=
  (Option.map_injective (Option.some_injective String)).eq_iff

theorem Holds.getD_eq {field : Option α} (h : Holds key read pairs field) (standard : α) :
    ((last? key pairs).map read).getD (some standard) = some (field.getD standard) := by
  rw [← h]
  cases field with
  | none => rfl
  | some a => rfl

end Holds

/-- The configuration that the pairs of the solver sections and those of the equations sections
make up. -/
structure Reflects (c : Config) (settings equations : List (String × String)) : Prop where
  level : Holds "loglevel" level? settings c.level
  precision : Holds "precision" Text.natural? settings c.precision
  mode : Holds "mode" mode? settings c.mode
  logFile : Holds "log_file" some settings c.logFile
  equations : c.equations = equations

variable {c : Config} {settings equations : List (String × String)} {value : String}

theorem pairFaults_of_isSetting (h : IsSetting key value) : pairFaults (key, value) = [] := if_pos h

theorem pairFaults_of_not (h : ¬ IsSetting key value) :
    pairFaults (key, value) = [.invalidValue key (quoted key value)] := if_neg h

theorem parse_checked (value : String) :
    Checked (level? value = some ·) (pairFaults ("loglevel", value)) (Level.parse value) := by
  rw [Level.parse, ofText_eq]
  cases hl : level? value with
  | none =>
    rw [pairFaults_of_not (by simp [IsSetting, hl])]
    exact .error _ []
  | some level =>
    rw [pairFaults_of_isSetting (.inl ⟨rfl, by simp [hl]⟩)]
    exact .ok rfl

theorem set_checked (h : Reflects c settings equations) (pair : String × String) :
    Checked (Reflects · (settings ++ [pair]) equations) (pairFaults pair) (c.set pair) := by
  obtain ⟨key, value⟩ := pair
  simp only [Config.set]
  split_ifs with hlevel hprecision hmode hfile
  · subst hlevel
    exact (parse_checked value).map fun level hl =>
      ⟨holds_concat_self hl, h.precision.concat_of_ne (by decide),
        h.mode.concat_of_ne (by decide), h.logFile.concat_of_ne (by decide), h.equations⟩
  · subst hprecision
    cases hn : Text.natural? value with
    | none =>
      rw [pairFaults_of_not (by simp [IsSetting, hn])]
      exact .error _ []
    | some n =>
      rw [pairFaults_of_isSetting (.inr (.inl ⟨rfl, by simp [hn]⟩))]
      exact .ok ⟨h.level.concat_of_ne (by decide), holds_concat_self hn,
        h.mode.concat_of_ne (by decide), h.logFile.concat_of_ne (by decide), h.equations⟩
  · subst hmode
    rw [ofName?_eq]
    cases hm : mode? value with
    | none =>
      rw [pairFaults_of_not (by simp [IsSetting, hm])]
      exact .error _ []
    | some mode =>
      rw [pairFaults_of_isSetting (.inr (.inr (.inl ⟨rfl, by simp [hm]⟩)))]
      exact .ok ⟨h.level.concat_of_ne (by decide), h.precision.concat_of_ne (by decide),
        holds_concat_self hm, h.logFile.concat_of_ne (by decide), h.equations⟩
  · obtain ⟨rfl, hne⟩ := hfile
    rw [pairFaults_of_isSetting (.inr (.inr (.inr ⟨rfl, hne⟩)))]
    exact .ok ⟨h.level.concat_of_ne (by decide), h.precision.concat_of_ne (by decide),
      h.mode.concat_of_ne (by decide), holds_concat_self rfl, h.equations⟩
  · have hnot : ¬ IsSetting key value := by
      rintro (⟨hkey, -⟩ | ⟨hkey, -⟩ | ⟨hkey, -⟩ | hfile')
      · exact hlevel hkey
      · exact hprecision hkey
      · exact hmode hkey
      · exact hfile hfile'
    rw [pairFaults_of_not hnot, quoted, if_neg hlevel]
    exact .error _ []

theorem foldlM_set_checked (h : Reflects c settings equations) (pairs : List (String × String)) :
    Checked (Reflects · (settings ++ pairs) equations) (pairs.flatMap pairFaults)
      (pairs.foldlM Config.set c) :=
  Checked.foldlM (P := fun read c => Reflects c read equations)
    (fun _ _ pair h => set_checked h pair) h pairs

def ReflectsSections (document : List Section) (c : Config) : Prop :=
  Reflects c (pairsOf "solver" document) (pairsOf "equations" document)

theorem reflectsSections_nil : ReflectsSections [] {} := ⟨rfl, rfl, rfl, rfl, rfl⟩

theorem addSection_checked (h : ReflectsSections document c) (s : Section) :
    Checked (ReflectsSections (document ++ [s])) (sectionFaults s) (c.addSection s) := by
  unfold Config.addSection sectionFaults ReflectsSections
  rw [pairsOf_concat, pairsOf_concat]
  split_ifs with hsolver hequations hboth
  · exact absurd (hsolver.symm.trans hequations) (by decide)
  · rw [List.append_nil]
    exact foldlM_set_checked h s.2
  · rw [List.append_nil]
    exact .ok { h with equations := by rw [h.equations] }
  · exact .error _ []

/-- The first fault of a file decides; a file without one sets the last value of every key and has
all equations in file order. -/
theorem ofSections_checked (document : List Section) :
    Checked (ReflectsSections document) (faults document) (Config.ofSections document) :=
  Checked.foldlM (P := ReflectsSections) (fun _ _ s h => addSection_checked h s)
    reflectsSections_nil document

end Quadratics.Task
