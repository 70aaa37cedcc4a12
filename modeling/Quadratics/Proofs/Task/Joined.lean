import Mathlib.Data.List.TakeWhile
import Quadratics.Proofs.Token.Scanning
import Quadratics.Task.Document
/-! The lines of a task file read as one text, with a line feed between two of them: what stands in
it is found with the ends of the lines taken for what they are, characters. It is the same document,
and the same line is quoted. -/
namespace Quadratics.Task

namespace Joined

def lineEnd? : List Char → Option (List Char)
  | '\n' :: cs => some cs
  | '\r' :: '\n' :: cs => some cs
  | _ => none

def isInLine (c : Char) : Bool := c ≠ '\n' && c ≠ '\r'

def title? (cs : List Char) : Option (String × List Char) :=
  match key? cs with
  | none => none
  | some (name, rest) => (lineEnd? rest).map (String.ofList name, ·)

def pair? (cs : List Char) : Option ((String × String) × List Char) :=
  match key? cs with
  | some (key, ':' :: value) =>
    let rest := value.dropWhile isInLine
    some ((String.ofList key, String.ofList (Text.trim (value.takeWhile isInLine))),
      (lineEnd? rest).getD rest)
  | _ => none

variable {cs key rest : List Char}

theorem length_lineEnd? {ds : List Char} (h : lineEnd? cs = some ds) : ds.length < cs.length := by
  unfold lineEnd? at h
  split at h
  · cases h
    exact Nat.lt_succ_self _
  · cases h
    exact Nat.lt_succ_of_lt (Nat.lt_succ_self _)
  · cases h

theorem key?_suffix (h : key? cs = some (key, rest)) : rest <:+ cs := by
  unfold key? at h
  simp only at h
  split at h
  · cases h
  · split at h
    · cases h
      exact (List.dropWhile_suffix _).trans ((List.dropWhile_suffix _).trans
        (List.dropWhile_suffix _))
    · cases h

theorem length_title? {name : String} (h : title? cs = some (name, rest)) :
    rest.length < cs.length := by
  unfold title? at h
  split at h
  · cases h
  · next name' rest' hkey =>
    obtain ⟨ds, hds, heq⟩ := Option.map_eq_some_iff.mp h
    cases heq
    exact Nat.lt_of_lt_of_le (length_lineEnd? hds) (key?_suffix hkey).length_le

theorem length_pair? {pair : String × String} (h : pair? cs = some (pair, rest)) :
    rest.length < cs.length := by
  unfold pair? at h
  split at h
  · next key value hkey =>
    cases h
    have hvalue : (value.dropWhile isInLine).length < cs.length :=
      Nat.lt_of_le_of_lt (List.dropWhile_suffix _).length_le (key?_suffix hkey).length_le
    cases hend : lineEnd? (value.dropWhile isInLine) with
    | none => exact hvalue
    | some ds => exact Nat.lt_trans (length_lineEnd? hend) hvalue
  · cases h

def pairs (cs : List Char) : List (String × String) × List Char :=
  match _h : pair? cs with
  | none => ([], cs)
  | some (pair, rest) => (pair :: (pairs rest).1, (pairs rest).2)
termination_by cs.length
decreasing_by all_goals exact length_pair? _h

theorem pairs_of_none (h : pair? cs = none) : pairs cs = ([], cs) := by
  rw [pairs]
  split
  · rfl
  · next hp => cases h.symm.trans hp

theorem pairs_of_some {pair : String × String} (h : pair? cs = some (pair, rest)) :
    pairs cs = (pair :: (pairs rest).1, (pairs rest).2) := by
  rw [pairs]
  split
  · next hp => cases h.symm.trans hp
  · next hp =>
    cases h.symm.trans hp
    rfl

theorem length_pairs (cs : List Char) : (pairs cs).2.length ≤ cs.length := by
  induction cs using pairs.induct with
  | case1 cs hp =>
    rw [pairs_of_none hp]
  | case2 cs pair rest hp ih =>
    rw [pairs_of_some hp]
    exact Nat.le_trans ih (Nat.le_of_lt (length_pair? hp))

def sections (cs : List Char) : List Section × List Char :=
  match _h : title? cs with
  | none => ([], cs)
  | some (name, rest) =>
    if (pairs rest).1.isEmpty then ([], cs)
    else ((name, (pairs rest).1) :: (sections (pairs rest).2).1, (sections (pairs rest).2).2)
termination_by cs.length
decreasing_by all_goals exact Nat.lt_of_le_of_lt (length_pairs rest) (length_title? _h)

theorem sections_of_none (h : title? cs = none) : sections cs = ([], cs) := by
  rw [sections]
  split
  · rfl
  · next ht => cases h.symm.trans ht

theorem sections_of_some {name : String} (h : title? cs = some (name, rest)) :
    sections cs = if (pairs rest).1.isEmpty then ([], cs)
      else ((name, (pairs rest).1) :: (sections (pairs rest).2).1,
        (sections (pairs rest).2).2) := by
  rw [sections]
  split
  · next ht => cases h.symm.trans ht
  · next ht =>
    cases h.symm.trans ht
    rfl

def firstLine (cs : List Char) : String := String.ofList (Text.trim ((Text.lines cs).headD []))

/-- The sections of a text; what is left behind them is quoted unless it is blank. -/
def parse (text : String) : Except TaskError (List Section) :=
  let joined := ['\n'].intercalate ((Text.lines text.toList).filter (!isSkipped ·))
  if joined.isEmpty then .ok []
  else
    match sections joined with
    | ([], _) => .error (.parse (firstLine joined))
    | (found, left) =>
      if (Text.trim left).isEmpty then .ok found else .error (.parse (firstLine left))

def behind (lines : List (List Char)) : List Char := lines.flatMap ('\n' :: ·)

theorem intercalate_cons (line : List Char) (lines : List (List Char)) :
    ['\n'].intercalate (line :: lines) = line ++ behind lines := by
  induction lines generalizing line with
  | nil => rw [List.intercalate_singleton, behind, List.flatMap_nil, List.append_nil]
  | cons next lines ih =>
    rw [List.intercalate_cons_cons, ih, behind, behind, List.flatMap_cons, List.append_assoc]
    rfl

theorem behind_cons (line : List Char) (lines : List (List Char)) :
    behind (line :: lines) = '\n' :: ['\n'].intercalate (line :: lines) := by
  rw [intercalate_cons]
  rfl

theorem head?_behind {lines : List (List Char)} {c : Char} (h : c ∈ (behind lines).head?) :
    c = '\n' := by
  cases lines with
  | nil => cases h
  | cons line lines => exact (Option.some.inj h).symm

variable {line : List Char} {lines : List (List Char)}

theorem span_behind {p : Char → Bool} (hp : p '\n' = false) (us : List Char)
    (lines : List (List Char)) :
    (us ++ behind lines).takeWhile p = us.takeWhile p ∧
      (us ++ behind lines).dropWhile p = us.dropWhile p ++ behind lines :=
  takeWhile_append_of_head? (fun _ hc => head?_behind hc ▸ hp) us

theorem key?_behind (line : List Char) (lines : List (List Char)) :
    key? (line ++ behind lines) =
      (key? line).map fun (key, rest) => (key, rest ++ behind lines) := by
  have hstart := (span_behind (p := isSpace) rfl line lines).2
  unfold key?
  rw [hstart]
  cases hline : line.dropWhile isSpace with
  | nil =>
    cases hb : behind lines with
    | nil => rfl
    | cons c cs =>
      obtain rfl : c = '\n' := head?_behind (by rw [hb]; rfl)
      rfl
  | cons c cs =>
    obtain ⟨htake, hdrop⟩ := span_behind (p := isKeyCharacter) rfl (c :: cs) lines
    have hrest := (span_behind (p := isSpace) rfl ((c :: cs).dropWhile isKeyCharacter) lines).2
    rw [List.cons_append] at htake hdrop
    dsimp only [List.cons_append]
    split
    · rw [htake, hdrop, hrest]
      rfl
    · rfl

theorem key?_behind_of_some (hk : key? line = some (key, rest)) (lines : List (List Char)) :
    key? (line ++ behind lines) = some (key, rest ++ behind lines) := by
  rw [key?_behind, hk]
  rfl

theorem lineEnd?_behind (hn : '\n' ∉ rest) :
    lineEnd? (rest ++ behind lines) =
      if endsLine rest = true ∧ lines ≠ [] then some (['\n'].intercalate lines) else none := by
  match rest, lines with
  | [], [] => rfl
  | [], line :: lines => rw [behind_cons]; rfl
  | [c], [] =>
    have hc : c ≠ '\n' := by simpa [eq_comm] using hn
    simp [behind, lineEnd?, hc]
  | [c], line :: lines =>
    have hc : c ≠ '\n' := by simpa [eq_comm] using hn
    by_cases hr : c = '\r'
    · subst hr
      rw [behind_cons]
      rfl
    · simp [behind_cons, lineEnd?, endsLine, hc, hr]
  | c :: d :: rest, lines =>
    simp only [List.mem_cons, not_or] at hn
    simp [lineEnd?, endsLine, Ne.symm hn.1, Ne.symm hn.2.1]

theorem span_isInLine (hn : '\n' ∉ cs) :
    cs.takeWhile isInLine = cs.takeWhile (· ≠ '\r') ∧
      cs.dropWhile isInLine = cs.dropWhile (· ≠ '\r') := by
  induction cs with
  | nil => exact ⟨rfl, rfl⟩
  | cons c cs ih =>
    rw [List.mem_cons, not_or] at hn
    obtain ⟨htake, hdrop⟩ := ih hn.2
    have hc : isInLine c = decide (c ≠ '\r') := by simp [isInLine, Ne.symm hn.1]
    rw [List.takeWhile_cons, List.takeWhile_cons, List.dropWhile_cons, List.dropWhile_cons, hc,
      htake, hdrop]
    exact ⟨rfl, rfl⟩

variable {value : List Char}

theorem entry_colon (hk : key? line = some (key, ':' :: value)) :
    entry line = .pair (String.ofList key) (String.ofList (Text.trim (value.takeWhile (· ≠ '\r'))))
      (value.dropWhile (· ≠ '\r')) := by
  rw [entry, hk]
  rfl

theorem pair?_colon (hk : key? cs = some (key, ':' :: value)) :
    pair? cs = some ((String.ofList key, String.ofList (Text.trim (value.takeWhile isInLine))),
      (lineEnd? (value.dropWhile isInLine)).getD (value.dropWhile isInLine)) := by
  rw [pair?, hk]
  rfl

theorem entry_of_ne (hk : key? line = some (key, rest)) (hr : rest.head? ≠ some ':') :
    entry line = if endsLine rest then .title (String.ofList key) else .other := by
  rw [entry, hk]
  split
  · next h => cases h
  · next h =>
    cases h
    exact absurd rfl hr
  · next h =>
    cases h
    rfl

theorem pair?_of_ne (hk : key? cs = some (key, rest)) (hr : rest.head? ≠ some ':') :
    pair? cs = none := by
  rw [pair?, hk]
  split
  · next h =>
    cases h
    exact absurd rfl hr
  · rfl

theorem head?_append_behind (hr : rest.head? ≠ some ':') :
    (rest ++ behind lines).head? ≠ some ':' := by
  cases rest with
  | nil => exact fun h => absurd (head?_behind h) (by decide)
  | cons c rest => exact hr

theorem pair?_behind (hn : '\n' ∉ line) (lines : List (List Char)) :
    pair? (line ++ behind lines) =
      match entry line with
      | .pair key value rest =>
        some ((key, value), (lineEnd? (rest ++ behind lines)).getD (rest ++ behind lines))
      | _ => none := by
  cases hk : key? line with
  | none =>
    rw [pair?, key?_behind, entry, hk]
    rfl
  | some found =>
    obtain ⟨key, rest⟩ := found
    have hkey := key?_behind_of_some hk lines
    by_cases hr : rest.head? = some ':'
    · obtain ⟨value, rfl⟩ : ∃ value, rest = ':' :: value := List.head?_eq_some_iff.mp hr
      have hvalue : '\n' ∉ value := fun hmem =>
        hn ((key?_suffix hk).subset (List.mem_cons_of_mem _ hmem))
      obtain ⟨htake, hdrop⟩ := span_behind (p := isInLine) rfl value lines
      obtain ⟨htake', hdrop'⟩ := span_isInLine hvalue
      rw [htake'] at htake
      rw [hdrop'] at hdrop
      rw [List.cons_append] at hkey
      rw [pair?_colon hkey, entry_colon hk, htake, hdrop]
    · rw [pair?_of_ne hkey (head?_append_behind hr), entry_of_ne hk hr]
      cases endsLine rest <;> rfl

theorem title?_behind (hn : '\n' ∉ line) (lines : List (List Char)) :
    title? (line ++ behind lines) =
      match entry line, lines with
      | .title name, _ :: _ => some (name, ['\n'].intercalate lines)
      | _, _ => none := by
  cases hk : key? line with
  | none =>
    rw [title?, key?_behind, entry, hk]
    rfl
  | some found =>
    obtain ⟨key, rest⟩ := found
    have hrest : '\n' ∉ rest := fun hmem => hn ((key?_suffix hk).subset hmem)
    rw [title?, key?_behind_of_some hk]
    dsimp only
    rw [lineEnd?_behind hrest]
    by_cases hr : rest.head? = some ':'
    · obtain ⟨value, rfl⟩ : ∃ value, rest = ':' :: value := List.head?_eq_some_iff.mp hr
      rw [entry_colon hk]
      rfl
    · rw [entry_of_ne hk hr]
      cases endsLine rest <;> cases lines <;> rfl

theorem rest_of_entry {key value : String} (he : entry line = .pair key value rest) :
    rest <:+ line ∧ ∀ c ∈ rest.head?, c = '\r' := by
  unfold entry at he
  split at he
  · cases he
  · next key value hk =>
    cases he
    refine ⟨(List.dropWhile_suffix _).trans ((List.suffix_cons _ _).trans (key?_suffix hk)), ?_⟩
    intro c hc
    have hhead := List.head?_dropWhile_not (fun c : Char => decide (c ≠ '\r')) value
    rw [Option.mem_def.mp hc] at hhead
    simpa using hhead
  · split at he <;> cases he

theorem key?_return (cs : List Char) : key? ('\r' :: cs) = none := rfl

theorem pair?_eq_none (h : ∀ c ∈ cs.head?, c = '\r') : pair? cs = none := by
  cases cs with
  | nil => rfl
  | cons c cs =>
    obtain rfl := h c rfl
    rw [pair?, key?_return]

/-- The text is the lines; where there are none a carriage return may be left of the last one. -/
def Joins (lines : List (List Char)) (cs : List Char) : Prop :=
  cs = ['\n'].intercalate lines ∨ lines = [] ∧ cs = ['\r']

theorem joins_nil (h : endsLine rest = true) : Joins [] rest := by
  rw [endsLine, Bool.or_eq_true, List.isEmpty_iff, beq_iff_eq] at h
  exact h.imp_right (⟨rfl, ·⟩)

/-- The pairs are the same, and so is what is left of the lines. -/
structure SamePairs (lines : List (List Char)) (cs : List Char) : Prop where
  found : (pairs cs).1 = (Task.pairs lines).1
  left : Joins (Task.pairs lines).2 (pairs cs).2
  each : ∀ line ∈ (Task.pairs lines).2, '\n' ∉ line

theorem SamePairs.none (hn : ∀ l ∈ line :: lines, '\n' ∉ l)
    (he : ∀ key value rest, entry line ≠ .pair key value rest) :
    SamePairs (line :: lines) (line ++ behind lines) := by
  have hpair : pair? (line ++ behind lines) = .none := by
    rw [pair?_behind (hn line List.mem_cons_self)]
    split
    · next h => exact absurd h (he _ _ _)
    · rfl
  have hlines : Task.pairs (line :: lines) = ([], line :: lines) := by
    unfold Task.pairs
    split
    · next h => exact absurd h (he _ _ _)
    · rfl
    · rfl
  constructor
  · rw [pairs_of_none hpair, hlines]
  · rw [pairs_of_none hpair, hlines]
    exact .inl (intercalate_cons line lines).symm
  · rwa [hlines]

theorem SamePairs.last {key value : String} (hn : ∀ l ∈ line :: lines, '\n' ∉ l)
    (he : entry line = .pair key value rest) (hr : endsLine rest = false) :
    SamePairs (line :: lines) (line ++ behind lines) := by
  obtain ⟨hsuffix, hreturn⟩ := rest_of_entry he
  have hrest : '\n' ∉ rest := fun hmem => hn line List.mem_cons_self (hsuffix.subset hmem)
  have hpair := pair?_behind (hn line List.mem_cons_self) lines
  rw [he] at hpair
  dsimp only at hpair
  rw [lineEnd?_behind hrest, if_neg (by simp [hr]), Option.getD_none] at hpair
  have hnone : pair? (rest ++ behind lines) = .none := pair?_eq_none fun c hc => by
    cases rest with
    | nil => cases hr
    | cons d rest => exact hreturn c hc
  have hlines : Task.pairs (line :: lines) = ([(key, value)], rest :: lines) := by
    rw [Task.pairs, he]
    simp [hr]
  constructor
  · rw [pairs_of_some hpair, pairs_of_none hnone, hlines]
  · rw [pairs_of_some hpair, pairs_of_none hnone, hlines]
    exact .inl (intercalate_cons rest lines).symm
  · rw [hlines]
    exact List.forall_mem_cons.mpr ⟨hrest, (List.forall_mem_cons.mp hn).2⟩

theorem SamePairs.next {key value : String} {cs : List Char} (h : SamePairs lines cs)
    (hpair : pair? (line ++ behind lines) = some ((key, value), cs))
    (he : entry line = .pair key value rest) (hr : endsLine rest = true) :
    SamePairs (line :: lines) (line ++ behind lines) := by
  have hlines : Task.pairs (line :: lines) =
      ((key, value) :: (Task.pairs lines).1, (Task.pairs lines).2) := by
    rw [Task.pairs, he]
    simp [hr]
  constructor
  · rw [pairs_of_some hpair, hlines, h.found]
  · rw [pairs_of_some hpair, hlines]
    exact h.left
  · rw [hlines]
    exact h.each

theorem samePairs_nil (hr : endsLine rest = true) : SamePairs [] rest := by
  have hnone : pair? rest = .none := pair?_eq_none fun c hc => by
    rw [endsLine, Bool.or_eq_true, List.isEmpty_iff, beq_iff_eq] at hr
    rcases hr with rfl | rfl
    · cases hc
    · exact (Option.some.inj hc).symm
  constructor
  · rw [pairs_of_none hnone]
    rfl
  · rw [pairs_of_none hnone]
    exact joins_nil hr
  · exact List.forall_mem_nil _

theorem samePairs (hn : ∀ line ∈ lines, '\n' ∉ line) :
    SamePairs lines (['\n'].intercalate lines) := by
  induction lines with
  | nil => exact samePairs_nil rfl
  | cons line lines ih =>
    obtain ⟨hline, hlines⟩ := List.forall_mem_cons.mp hn
    rw [intercalate_cons]
    cases he : entry line with
    | title name => exact .none hn (by simp [he])
    | other => exact .none hn (by simp [he])
    | pair key value rest =>
      cases hr : endsLine rest with
      | false => exact .last hn he hr
      | true =>
        have hpair := pair?_behind hline lines
        have hrest : '\n' ∉ rest := fun hmem => hline ((rest_of_entry he).1.subset hmem)
        rw [he] at hpair
        dsimp only at hpair
        rw [lineEnd?_behind hrest] at hpair
        cases lines with
        | nil =>
          have hnext : rest ++ behind [] = rest := List.append_nil rest
          rw [if_neg (by simp), Option.getD_none, hnext] at hpair
          exact (samePairs_nil hr).next hpair he hr
        | cons next lines =>
          rw [if_pos ⟨hr, List.cons_ne_nil next lines⟩, Option.getD_some] at hpair
          exact (ih hlines).next hpair he hr

structure SameSections (lines : List (List Char)) (cs : List Char) : Prop where
  found : (sections cs).1 = (Task.sections lines).1
  left : Joins (Task.sections lines).2 (sections cs).2
  each : ∀ line ∈ (Task.sections lines).2, '\n' ∉ line

theorem SameSections.none (hn : ∀ l ∈ line :: lines, '\n' ∉ l)
    (ht : title? (line ++ behind lines) = .none)
    (hs : Task.sections (line :: lines) = ([], line :: lines)) :
    SameSections (line :: lines) (line ++ behind lines) := by
  constructor
  · rw [sections_of_none ht, hs]
  · rw [sections_of_none ht, hs]
    exact .inl (intercalate_cons line lines).symm
  · rwa [hs]

theorem sameSections_nil (h : Joins [] cs) : SameSections [] cs := by
  have hlines : Task.sections [] = ([], []) := by rw [Task.sections]
  have hnone : title? cs = .none := by
    rcases h with rfl | ⟨-, rfl⟩
    · rw [List.intercalate_nil]
      rfl
    · rfl
  constructor
  · rw [sections_of_none hnone, hlines]
  · rw [sections_of_none hnone, hlines]
    exact h
  · rw [hlines]
    exact List.forall_mem_nil _

theorem sameSections_joins (h : Joins lines cs)
    (hs : SameSections lines (['\n'].intercalate lines)) : SameSections lines cs := by
  rcases h with rfl | ⟨rfl, rfl⟩
  · exact hs
  · exact sameSections_nil (.inr ⟨rfl, rfl⟩)

theorem sameSections (hn : ∀ line ∈ lines, '\n' ∉ line) :
    SameSections lines (['\n'].intercalate lines) := by
  induction lines using Task.sections.induct with
  | case1 => exact sameSections_nil (.inl rfl)
  | case2 line lines name he hempty =>
    obtain ⟨hline, hlines⟩ := List.forall_mem_cons.mp hn
    have hs : Task.sections (line :: lines) = ([], line :: lines) := by
      rw [Task.sections, he]
      simp [hempty]
    rw [intercalate_cons]
    cases lines with
    | nil => exact .none hn ((title?_behind hline _).trans (by rw [he])) hs
    | cons next lines =>
      have ht := title?_behind hline (next :: lines)
      rw [he] at ht
      have hfound := (samePairs hlines).found
      constructor
      · rw [sections_of_some ht, hfound, if_pos hempty, hs]
      · rw [sections_of_some ht, hfound, if_pos hempty, hs]
        exact .inl (intercalate_cons line (next :: lines)).symm
      · rwa [hs]
  | case3 line lines name he hempty ih =>
    obtain ⟨hline, hlines⟩ := List.forall_mem_cons.mp hn
    have hsame := samePairs hlines
    have hrest := sameSections_joins hsame.left (ih hsame.each)
    have hs : Task.sections (line :: lines) = ((name, (Task.pairs lines).1) ::
        (Task.sections (Task.pairs lines).2).1, (Task.sections (Task.pairs lines).2).2) := by
      rw [Task.sections, he]
      simp [hempty]
    rw [intercalate_cons]
    cases lines with
    | nil => exact absurd rfl hempty
    | cons next lines =>
      have ht := title?_behind hline (next :: lines)
      rw [he] at ht
      constructor
      · rw [sections_of_some ht, hsame.found, if_neg hempty, hs, hrest.found]
      · rw [sections_of_some ht, hsame.found, if_neg hempty, hs]
        exact hrest.left
      · rw [hs]
        exact hrest.each
  | case4 line lines key value rest he =>
    have hline := hn line List.mem_cons_self
    rw [intercalate_cons]
    exact .none hn ((title?_behind hline _).trans (by rw [he])) (by rw [Task.sections, he])
  | case5 line lines he =>
    have hline := hn line List.mem_cons_self
    rw [intercalate_cons]
    exact .none hn ((title?_behind hline _).trans (by rw [he])) (by rw [Task.sections, he])

theorem trim_concat {c : Char} (hc : Text.isBlank c = true) (cs : List Char) :
    Text.trim (cs ++ [c]) = Text.trim cs := by
  rw [Text.trim, Text.trim, Text.trimStart, Text.trimStart, List.dropWhile_append]
  split
  · next h => rw [List.isEmpty_iff.mp h, List.dropWhile_cons, if_pos hc, List.dropWhile_nil]
  · rw [Text.trimEnd, Text.trimEnd, List.reverse_concat, List.dropWhile_cons, if_pos hc]

theorem trim_eq_nil_iff (cs : List Char) :
    Text.trim cs = [] ↔ ∀ c ∈ cs, Text.isBlank c = true := by
  rw [Text.trim, Text.trimEnd, List.reverse_eq_nil_iff, List.dropWhile_eq_nil_iff, Text.trimStart]
  refine ⟨fun h => List.dropWhile_eq_nil_iff.mp ?_,
    fun h c hc => h c ((List.dropWhile_sublist _).subset (List.mem_reverse.mp hc))⟩
  have hhead := List.head?_dropWhile_not Text.isBlank cs
  cases hdrop : cs.dropWhile Text.isBlank with
  | nil => rfl
  | cons d ds =>
    have hblank := h d (by simp [hdrop])
    rw [hdrop] at hhead
    simp [hblank] at hhead

theorem trim_endLine (cs : List Char) : Text.trim (Text.endLine cs) = Text.trim cs.reverse := by
  unfold Text.endLine
  split
  · rw [List.reverse_cons, trim_concat (by decide)]
  · rfl

theorem mem_of_mem_endLine {c : Char} (h : c ∈ Text.endLine cs) : c ∈ cs := by
  unfold Text.endLine at h
  split at h
  · exact List.mem_cons_of_mem _ (List.mem_reverse.mp h)
  · exact List.mem_reverse.mp h

theorem not_mem_linesAfter {current : List Char} (hn : '\n' ∉ current)
    (h : line ∈ Text.linesAfter current cs) : '\n' ∉ line := by
  induction cs generalizing current with
  | nil =>
    rw [Text.linesAfter] at h
    split at h
    · cases h
    · obtain rfl := List.mem_singleton.mp h
      rwa [List.mem_reverse]
  | cons c cs ih =>
    rw [Text.linesAfter] at h
    split at h
    · rcases List.mem_cons.mp h with rfl | h
      · exact mt mem_of_mem_endLine hn
      · exact ih List.not_mem_nil h
    · next hc =>
      exact ih (by simp [Ne.symm hc, hn]) h

theorem linesAfter_append (hn : '\n' ∉ line) (current cs : List Char) :
    Text.linesAfter current (line ++ cs) = Text.linesAfter (line.reverse ++ current) cs := by
  induction line generalizing current with
  | nil => rfl
  | cons c line ih =>
    rw [List.mem_cons, not_or] at hn
    rw [List.cons_append, Text.linesAfter, if_neg (Ne.symm hn.1), ih hn.2, List.reverse_cons,
      List.append_assoc]
    rfl

theorem firstLine_behind (hn : '\n' ∉ line) :
    firstLine (line ++ behind lines) = String.ofList (Text.trim line) := by
  rw [firstLine, Text.lines, linesAfter_append hn, List.append_nil]
  cases lines with
  | nil =>
    rw [behind, List.flatMap_nil, Text.linesAfter]
    split
    · next hempty => rw [List.reverse_eq_nil_iff.mp (List.isEmpty_iff.mp hempty)]; rfl
    · rw [List.headD_cons, List.reverse_reverse]
  | cons next lines =>
    rw [behind_cons, Text.linesAfter, if_pos rfl, List.headD_cons, trim_endLine,
      List.reverse_reverse]

theorem left_of_found_nil (cs : List Char) (h : (sections cs).1 = []) :
    (sections cs).2 = cs := by
  cases ht : title? cs with
  | none => rw [sections_of_none ht]
  | some title =>
    rw [sections_of_some ht] at h ⊢
    split at h
    · next hempty => rw [if_pos hempty]
    · cases h

theorem Joins.trim_eq_nil_iff (h : Joins lines cs) :
    Text.trim cs = [] ↔ ∀ line ∈ lines, Text.trim line = [] := by
  rcases h with rfl | ⟨rfl, rfl⟩
  · cases lines with
    | nil => rw [List.intercalate_nil]; exact iff_of_true rfl (List.forall_mem_nil _)
    | cons line lines =>
      rw [intercalate_cons, Joined.trim_eq_nil_iff, List.forall_mem_append, List.forall_mem_cons,
        Joined.trim_eq_nil_iff]
      refine and_congr_right fun _ => ⟨fun h line hline => ?_, fun h c hc => ?_⟩
      · rw [Joined.trim_eq_nil_iff]
        exact fun c hc => h c (List.mem_flatMap.mpr ⟨line, hline, List.mem_cons_of_mem _ hc⟩)
      · obtain ⟨line, hline, hmem⟩ := List.mem_flatMap.mp hc
        rcases List.mem_cons.mp hmem with rfl | hmem
        · decide
        · exact (Joined.trim_eq_nil_iff line).mp (h line hline) c hmem
  · exact iff_of_true rfl (List.forall_mem_nil _)

theorem Joins.firstLine (h : Joins (line :: lines) cs) (hn : '\n' ∉ line) :
    Joined.firstLine cs = String.ofList (Text.trim line) := by
  obtain rfl := h.resolve_right fun ⟨hnil, _⟩ => List.cons_ne_nil _ _ hnil
  rw [intercalate_cons, firstLine_behind hn]

/-- What is left is judged alike: no line that is not blank, no text that is not. -/
theorem Joins.judged (h : Joins lines cs) (hn : ∀ line ∈ lines, '\n' ∉ line)
    (found : List Section) :
    (match lines.find? (fun line => !(Text.trim line).isEmpty) with
      | none => .ok found
      | some _ => .error (.parse (String.ofList (Text.trim (lines.headD []))))) =
    if (Text.trim cs).isEmpty then (.ok found : Except TaskError (List Section))
    else .error (.parse (Joined.firstLine cs)) := by
  have hnone : lines.find? (fun line => !(Text.trim line).isEmpty) = none ↔ Text.trim cs = [] := by
    rw [h.trim_eq_nil_iff, List.find?_eq_none]
    simp
  cases hfind : lines.find? (fun line => !(Text.trim line).isEmpty) with
  | none => rw [if_pos (List.isEmpty_iff.mpr (hnone.mp hfind))]
  | some line =>
    have hblank : Text.trim cs ≠ [] := fun hblank => by
      rw [hnone.mpr hblank] at hfind
      cases hfind
    rw [if_neg (mt List.isEmpty_iff.mp hblank)]
    cases lines with
    | nil => cases hfind
    | cons first lines =>
      rw [h.firstLine (hn first List.mem_cons_self)]
      rfl

/-- Reading line by line is reading the text that the lines make. -/
theorem parse_eq_joined (text : String) : Task.parse text = parse text := by
  have hkept : ∀ line ∈ (Text.lines text.toList).filter (!isSkipped ·),
      '\n' ∉ line ∧ Text.trim line ≠ [] := by
    intro line hline
    obtain ⟨hmem, hskip⟩ := List.mem_filter.mp hline
    refine ⟨not_mem_linesAfter List.not_mem_nil hmem, fun hnil => ?_⟩
    simp [isSkipped, hnil] at hskip
  rw [Task.parse, parse]
  generalize (Text.lines text.toList).filter (!isSkipped ·) = lines at hkept
  have hsame := sameSections fun line hline => (hkept line hline).1
  refine (hsame.left.judged hsame.each _).trans ?_
  cases lines with
  | nil =>
    rw [List.intercalate_nil, Task.sections, sections_of_none rfl]
    rfl
  | cons line lines =>
    have htrim : Text.trim (['\n'].intercalate (line :: lines)) ≠ [] := fun h =>
      (hkept line List.mem_cons_self).2
        ((Joins.trim_eq_nil_iff (.inl rfl)).mp h line List.mem_cons_self)
    have hne : ['\n'].intercalate (line :: lines) ≠ [] := by
      intro h
      rw [h] at htrim
      exact htrim rfl
    rw [if_neg (mt List.isEmpty_iff.mp hne), ← hsame.found]
    have hleft := left_of_found_nil (['\n'].intercalate (line :: lines))
    generalize sections (['\n'].intercalate (line :: lines)) = read at hleft ⊢
    obtain ⟨_ | ⟨first, found⟩, left⟩ := read
    · obtain rfl := hleft rfl
      exact if_neg (mt List.isEmpty_iff.mp htrim)
    · rfl

end Joined

end Quadratics.Task
