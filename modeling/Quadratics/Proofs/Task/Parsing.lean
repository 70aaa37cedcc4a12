import Quadratics.Proofs.Task.Grammar
/-! Task files are read by their grammar, up to the first line that does not fit. -/
namespace Quadratics.Task

variable {line title name : List Char} {lines body left : List (List Char)}
  {document : List Section}

theorem forall₂_gives {pairs : List (String × String)} (h : List.Forall₂ Gives body pairs) :
    ∀ line ∈ body, ∃ pair, Gives line pair := by
  induction h with
  | nil => simp
  | cons hg _ ih => exact List.forall_mem_cons.mpr ⟨⟨_, hg⟩, ih⟩

theorem pairs_spec (hr : ∀ line ∈ lines, '\r' ∉ line) :
    ∃ body, lines = body ++ (pairs lines).2 ∧ List.Forall₂ Gives body (pairs lines).1 ∧
      ∀ line ∈ (pairs lines).2.head?, ∀ pair, ¬ Gives line pair := by
  induction lines with
  | nil => exact ⟨[], rfl, .nil, by simp [pairs]⟩
  | cons line lines ih =>
    obtain ⟨hline, hlines⟩ := List.forall_mem_cons.mp hr
    obtain ⟨body, hbody, hgives, hnext⟩ := ih hlines
    have other (he : ∀ key value rest, entry line ≠ .pair key value rest) :
        ∀ pair, ¬ Gives line pair := by
      rintro pair ⟨key, rest, hp, -⟩
      exact he _ _ _ (entry_pair hline hp)
    cases he : entry line with
    | pair key value rest =>
      obtain ⟨rfl, hg⟩ := gives_of_entry hline he
      have hp : pairs (line :: lines) = ((key, value) :: (pairs lines).1, (pairs lines).2) := by
        rw [pairs, he]
        rfl
      rw [hp]
      exact ⟨line :: body, by rw [List.cons_append, ← hbody], hgives.cons hg, hnext⟩
    | title name =>
      have hp : pairs (line :: lines) = ([], line :: lines) := by rw [pairs, he]
      rw [hp]
      exact ⟨[], rfl, .nil, by simpa using other (by simp [he])⟩
    | other =>
      have hp : pairs (line :: lines) = ([], line :: lines) := by rw [pairs, he]
      rw [hp]
      exact ⟨[], rfl, .nil, by simpa using other (by simp [he])⟩

theorem span_unique {α : Type} {p : α → Prop} {us us' vs vs' : List α}
    (h : us ++ vs = us' ++ vs') (hu : ∀ a ∈ us, p a) (hu' : ∀ a ∈ us', p a)
    (hv : ∀ a ∈ vs.head?, ¬ p a) (hv' : ∀ a ∈ vs'.head?, ¬ p a) : us = us' ∧ vs = vs' := by
  classical
  obtain ⟨htake, hdrop⟩ := span_append (fun a ha => decide_eq_true (hu a ha))
    fun a ha => decide_eq_false (hv a ha)
  obtain ⟨htake', hdrop'⟩ := span_append (fun a ha => decide_eq_true (hu' a ha))
    fun a ha => decide_eq_false (hv' a ha)
  rw [h, htake'] at htake
  rw [h, hdrop'] at hdrop
  exact ⟨htake.symm, hdrop.symm⟩

theorem length_le_span {α : Type} {p : α → Prop} {us us' vs : List α}
    (h : us' <+: us ++ vs) (hu' : ∀ a ∈ us', p a) (hv : ∀ a ∈ vs.head?, ¬ p a) :
    us'.length ≤ us.length := by
  obtain ⟨rest, hrest⟩ := h
  rcases List.append_eq_append_iff.mp hrest with ⟨as, rfl, -⟩ | ⟨bs, rfl, rfl⟩
  · simp
  · cases bs with
    | nil => simp
    | cons b bs => exact absurd (hu' b (by simp)) (hv b rfl)

theorem Sections.cons_prefix {more : List (List Char)} (h : Sections more document)
    (hp : more <+: line :: lines) :
    more = [] ∨ ∃ name body pairs rest doc, IsTitle line name ∧ List.Forall₂ Gives body pairs ∧
      body ≠ [] ∧ Sections rest doc ∧ more = line :: (body ++ rest) ∧ body ++ rest <+: lines := by
  cases h with
  | nil => exact .inl rfl
  | cons ht hb hne h =>
    obtain ⟨rfl, hrest⟩ := List.cons_prefix_cons.mp hp
    exact .inr ⟨_, _, _, _, _, ht, hb, hne, h, rfl, hrest⟩

theorem Sections.length_le {body' rest : List (List Char)} {n : Nat} (h : Sections rest document)
    (hp : body' ++ rest <+: body ++ left) (hb' : ∀ line ∈ body', ∃ pair, Gives line pair)
    (hb : ∀ line ∈ body, ∃ pair, Gives line pair)
    (hl : ∀ line ∈ left.head?, ¬ ∃ pair, Gives line pair)
    (hn : rest <+: left → rest.length ≤ n) : (body' ++ rest).length ≤ (body.length + n) := by
  cases h with
  | nil =>
    rw [List.append_nil] at hp ⊢
    exact (length_le_span hp hb' hl).trans (Nat.le_add_right _ _)
  | cons ht _ _ _ =>
    obtain ⟨after, hafter⟩ := hp
    rw [List.append_assoc] at hafter
    have hunique := span_unique hafter hb' hb (p := fun line => ∃ pair, Gives line pair)
      (fun line hline ⟨pair, hg⟩ => by
        cases hline
        exact ht.not_gives pair hg) hl
    obtain ⟨rfl, hrest⟩ := hunique
    rw [List.length_append]
    exact Nat.add_le_add_left (hn ⟨after, hrest⟩) _

/-- What is found: the sections that stand at the start, and no more lines are sections. -/
def FindsAll (lines : List (List Char)) : Prop :=
  ∃ done, lines = done ++ (sections lines).2 ∧ Sections done (sections lines).1 ∧
    ∀ more doc, Sections more doc → more <+: lines → more.length ≤ done.length

theorem finds_none (hs : sections (line :: lines) = ([], line :: lines))
    (hno : ∀ name, IsTitle line name → ∀ first ∈ lines.head?, ∀ pair, ¬ Gives first pair) :
    FindsAll (line :: lines) := by
  refine ⟨[], by rw [hs]; rfl, by rw [hs]; exact .nil, fun more doc h hp => ?_⟩
  rcases h.cons_prefix hp with rfl | ⟨name, body, pairs, rest, doc, ht, hb, hne, -, -, hbody⟩
  · exact Nat.le_refl 0
  · obtain ⟨after, rfl⟩ := hbody
    cases hb with
    | nil => exact absurd rfl hne
    | cons hg _ => exact absurd hg (hno name ht _ rfl _)

theorem finds_section {first : Section} (ht : IsTitle line name)
    (hp : first = (String.ofList name, (pairs lines).1)) (hne : (pairs lines).1 ≠ [])
    (hs : sections (line :: lines) =
      (first :: (sections (pairs lines).2).1, (sections (pairs lines).2).2))
    (hr : ∀ line ∈ lines, '\r' ∉ line) (hrest : FindsAll (pairs lines).2) :
    FindsAll (line :: lines) := by
  obtain ⟨body, hbody, hgives, hnext⟩ := pairs_spec hr
  obtain ⟨done, hdone, hsections, hlongest⟩ := hrest
  refine ⟨line :: (body ++ done), ?_, ?_, fun more doc h hmore => ?_⟩
  · rw [hs, List.cons_append, List.append_assoc, ← hdone, ← hbody]
  · rw [hs, hp]
    refine .cons ht hgives ?_ hsections
    rintro rfl
    exact hne (List.forall₂_nil_left_iff.mp hgives)
  · rcases h.cons_prefix hmore with rfl |
      ⟨name, body', pairs', rest, doc, -, hb, -, hsec, rfl, hbody'⟩
    · exact Nat.zero_le _
    · rw [hbody] at hbody'
      have hlength := hsec.length_le hbody' (forall₂_gives hb) (forall₂_gives hgives)
        (fun l hl ⟨pair, hg⟩ => hnext l hl pair hg) (hlongest rest doc hsec)
      simpa using hlength

theorem finds_all (hr : ∀ line ∈ lines, '\r' ∉ line) : FindsAll lines := by
  induction lines using sections.induct with
  | case1 =>
    refine ⟨[], by simp [sections], by simpa [sections] using .nil, fun more doc h hp => ?_⟩
    rw [List.prefix_nil.mp hp]
  | case2 line lines name he hempty =>
    obtain ⟨-, hlines⟩ := List.forall_mem_cons.mp hr
    obtain ⟨body, hbody, hgives, hnext⟩ := pairs_spec hlines
    rw [List.isEmpty_iff.mp hempty, List.forall₂_nil_right_iff] at hgives
    rw [hgives, List.nil_append] at hbody
    refine finds_none (by rw [sections, he]; simp [hempty]) fun name ht => ?_
    rwa [← hbody] at hnext
  | case3 line lines title he hempty ih =>
    obtain ⟨hline, hlines⟩ := List.forall_mem_cons.mp hr
    obtain ⟨name, rfl, ht⟩ := isTitle_of_entry hline he
    refine finds_section ht rfl (by simpa using hempty) ?_ hlines (ih fun l hl => hlines l ?_)
    · rw [sections, he]
      simp [hempty]
    · obtain ⟨body, hbody, -⟩ := pairs_spec hlines
      rw [hbody]
      exact List.mem_append_right body hl
  | case4 line lines key value rest he =>
    refine finds_none (by rw [sections, he]) fun name ht => ?_
    cases he.symm.trans (entry_title ht)
  | case5 line lines he =>
    refine finds_none (by rw [sections, he]) fun name ht => ?_
    cases he.symm.trans (entry_title ht)

theorem Sections.orderly (h : Sections lines document) : Orderly lines := by
  induction h with
  | nil => exact ⟨by simp, by simp, by simp⟩
  | @cons title name body lines pairs doc ht hb hne h ih =>
    have hbody := forall₂_gives hb
    refine ⟨fun l hl => ?_, ?_, ?_⟩
    · cases hl
      exact ⟨name, ht⟩
    · refine List.forall_mem_cons.mpr ⟨.inl ⟨name, ht⟩, fun l hl => ?_⟩
      rcases List.mem_append.mp hl with hl | hl
      · obtain ⟨pair, key, rest, hp, -⟩ := hbody l hl
        exact .inr ⟨key, rest, hp⟩
      · exact ih.each l hl
    · rintro before title' after heq ⟨name', ht'⟩
      have hout : title' ∉ body := fun hmem =>
        let ⟨pair, hg⟩ := hbody title' hmem
        ht'.not_gives pair hg
      rcases List.cons_eq_append_iff.mp heq with ⟨rfl, hcons⟩ | ⟨before, rfl, happ⟩
      · cases hcons
        cases hb with
        | nil => exact absurd rfl hne
        | cons hg _ =>
          obtain ⟨key, rest, hp, -⟩ := hg
          exact ⟨_, rfl, key, rest, hp⟩
      · rcases List.append_eq_append_iff.mp happ with ⟨as, rfl, hlines⟩ | ⟨bs, rfl, hlines⟩
        · exact ih.followed as title' after hlines ⟨name', ht'⟩
        · cases bs with
          | nil => exact ih.followed [] title' after hlines.symm ⟨name', ht'⟩
          | cons b bs =>
            cases hlines
            exact absurd (List.mem_append_right before List.mem_cons_self) hout

theorem Orderly.behind (h : Orderly (title :: (body ++ left)))
    (hl : ∀ line ∈ left.head?, ∀ pair, ¬ Gives line pair) : Orderly left where
  first line hline := by
    have hmem : line ∈ title :: (body ++ left) :=
      List.mem_cons_of_mem _ (List.mem_append_right _ (List.mem_of_mem_head? hline))
    exact (h.each line hmem).resolve_right fun ⟨key, rest, hp⟩ =>
      hl line hline _ ⟨key, rest, hp, rfl⟩
  each line hline := h.each line (List.mem_cons_of_mem _ (List.mem_append_right _ hline))
  followed before t after heq := h.followed (title :: (body ++ before)) t after (by simp [heq])

/-- The lines of a file are in order just if they make up sections. -/
theorem orderly_iff (hr : ∀ line ∈ lines, '\r' ∉ line) :
    Orderly lines ↔ ∃ doc, Sections lines doc := by
  refine ⟨fun h => ?_, fun ⟨doc, h⟩ => h.orderly⟩
  induction hn : lines.length using Nat.strong_induction_on generalizing lines with
  | _ n ih =>
    cases lines with
    | nil => exact ⟨[], .nil⟩
    | cons title lines =>
      obtain ⟨-, hlines⟩ := List.forall_mem_cons.mp hr
      obtain ⟨name, ht⟩ := h.first title rfl
      obtain ⟨first, hfirst, key, rest, hp⟩ := h.followed [] title lines rfl ⟨name, ht⟩
      obtain ⟨body, hbody, hgives, hnext⟩ := pairs_spec hlines
      generalize pairs lines = found at hbody hgives hnext
      subst hbody
      have hne : body ≠ [] := by
        rintro rfl
        exact hnext first hfirst _ ⟨key, rest, hp, rfl⟩
      obtain ⟨doc, hdoc⟩ := ih found.2.length
        (by simp only [List.length_cons, List.length_append] at hn; omega)
        (fun l hl => hlines l (List.mem_append_right body hl)) (h.behind hnext) rfl
      exact ⟨_, .cons ht hgives hne hdoc⟩

theorem trim_ne_nil (text : String) (h : line ∈ kept text) : Text.trim line ≠ [] := by
  have hskip : ¬ Skipped line := by simpa using List.of_mem_filter h
  exact fun hnil => hskip (.inl hnil)

theorem parse_eq {text : String} (h : CarriagesEnd text.toList) :
    parse text = match (sections (kept text)).2 with
      | [] => .ok (sections (kept text)).1
      | line :: _ => .error (.parse (String.ofList (Text.trim line))) := by
  obtain ⟨done, hdone, -⟩ := finds_all fun line (hl : line ∈ kept text) => not_mem_kept hl
  have hline : ∀ line ∈ (sections (kept text)).2, (Text.trim line).isEmpty = false := by
    intro line hl
    simpa using trim_ne_nil text (hdone ▸ List.mem_append_right done hl)
  rw [parse, filter_lines h]
  generalize sections (kept text) = found at hline
  obtain ⟨document, left⟩ := found
  cases left with
  | nil => rfl
  | cons line rest => simp [hline line List.mem_cons_self]

/-- A file is read just if its lines are in order, and then as the sections they make up; else the
line is quoted that stands behind the longest start made of sections. -/
theorem parse_grammar (text : String) (hcr : CarriagesEnd text.toList) :
    (kept text = [] → parse text = .ok []) ∧
    (kept text ≠ [] → ((∃ document, parse text = .ok document) ↔ Orderly (kept text))) ∧
    (∀ document, parse text = .ok document → Sections (kept text) document) ∧
    ((∀ document, parse text ≠ .ok document) → ∃ done document line rest,
      kept text = done ++ line :: rest ∧ Sections done document ∧
      (∀ more document, Sections more document → more <+: kept text →
        more.length ≤ done.length) ∧
      parse text = .error (.parse (String.ofList (Text.trim line)))) := by
  have hr : ∀ line ∈ kept text, '\r' ∉ line := fun line => not_mem_kept
  obtain ⟨done, hdone, hsections, hlongest⟩ := finds_all hr
  have hparse := parse_eq hcr
  have hok {document} (hd : parse text = .ok document) : Sections (kept text) document := by
    cases hleft : (sections (kept text)).2 with
    | nil =>
      rw [hleft, List.append_nil] at hdone
      rw [hparse, hleft] at hd
      cases hd
      exact hdone ▸ hsections
    | cons line rest =>
      rw [hparse, hleft] at hd
      cases hd
  refine ⟨fun hnil => ?_, fun _ => ⟨fun ⟨document, hd⟩ => ?_, fun horder => ?_⟩,
    fun document => hok, fun hno => ?_⟩
  · rw [hparse, hnil]
    simp [sections]
  · exact (orderly_iff hr).mpr ⟨document, hok hd⟩
  · obtain ⟨document, hd⟩ := (orderly_iff hr).mp horder
    have hlength := hlongest _ document hd List.prefix_rfl
    have hall := congrArg List.length hdone
    rw [List.length_append] at hall
    have hleft : (sections (kept text)).2 = [] := List.length_eq_zero_iff.mp (by omega)
    exact ⟨_, by rw [hparse, hleft]⟩
  · cases hleft : (sections (kept text)).2 with
    | nil => exact absurd (by rw [hparse, hleft]) (hno (sections (kept text)).1)
    | cons line rest =>
      refine ⟨done, (sections (kept text)).1, line, rest, ?_, hsections, hlongest, ?_⟩
      · rw [← hleft]
        exact hdone
      · rw [hparse, hleft]

/-- A comment alone, a section behind a comment, and a title without pairs at the end. -/
theorem parse_grammar_cases :
    (kept "#" = [] ∧ parse "#" = .ok []) ∧
    (let text := "; first\r\na\r\nk: v w \n"
     kept text ≠ [] ∧ parse text = .ok [("a", [("k", "v w")])] ∧ Orderly (kept text) ∧
      Sections (kept text) [("a", [("k", "v w")])]) ∧
    let text := "a\nk: v\n b "
    parse text = .error (.parse "b") ∧ ∃ done document line rest,
      kept text = done ++ line :: rest ∧ Sections done document ∧
      (∀ more document, Sections more document → more <+: kept text →
        more.length ≤ done.length) ∧
      parse text = .error (.parse (String.ofList (Text.trim line))) := by
  refine ⟨?_, ?_, ?_⟩
  · have hkept : kept "#" = [] := by decide +kernel
    exact ⟨hkept, (parse_grammar "#" (by decide +kernel)).1 hkept⟩
  · intro text
    have hne : kept text ≠ [] := by decide +kernel
    have hok : parse text = .ok [("a", [("k", "v w")])] := by decide +kernel
    obtain ⟨-, horder, hsections, -⟩ := parse_grammar text (by decide +kernel)
    exact ⟨hne, hok, (horder hne).mp ⟨_, hok⟩, hsections _ hok⟩
  · intro text
    have herror : parse text = .error (.parse "b") := by decide +kernel
    have hno : ∀ document, parse text ≠ .ok document := by simp [herror]
    exact ⟨herror, (parse_grammar text (by decide +kernel)).2.2.2 hno⟩

end Quadratics.Task
