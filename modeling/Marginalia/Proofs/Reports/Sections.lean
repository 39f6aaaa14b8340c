import Mathlib.Tactic.TFAE
import Marginalia.Proofs.Reports.Located

/-!
# The text around a fault

A report cuts the text into what stands before the place of a fault on its line, the place, and what
follows it. The three pieces stand one behind another in the text, and a line feed ends them
(`Source.sections_of_run`).

Under the pieces the picture of a report has a line of carets. They stand under the place, and the
picture shows the whole line before it, with one exception: a place that begins with a line feed has
nothing before it, so the carets are at the margin. `Source.carets_of_run` says that this is the
only exception, and that it is one unless the line is empty.
-/

namespace Marginalia

/-! ## The last line feed -/

/-- The text cut at its last line feed. -/
theorem exists_of_lastFeed? {text : List Char} {feed : Nat} (found : lastFeed? text = some feed) :
    ∃ front back, text = front ++ '\n' :: back ∧ front.length = feed ∧ '\n' ∉ back := by
  induction text using List.reverseRecOn with
  | nil => cases found
  | append_singleton text c ih =>
    rw [lastFeed?_append] at found
    split at found
    next same =>
      cases found
      exact ⟨text, [], by rw [same], rfl, List.not_mem_nil⟩
    next other =>
      obtain ⟨front, back, rfl, length, free⟩ := ih found
      refine ⟨front, back ++ [c], by simp, length, ?_⟩
      rw [List.mem_append, List.mem_singleton, not_or]
      exact ⟨free, Ne.symm other⟩

theorem not_mem_of_lastFeed? {text : List Char} (none : lastFeed? text = none) : '\n' ∉ text := by
  induction text using List.reverseRecOn with
  | nil => exact List.not_mem_nil
  | append_singleton text c ih =>
    rw [lastFeed?_append] at none
    split at none
    next => cases none
    next other =>
      rw [List.mem_append, List.mem_singleton, not_or]
      exact ⟨ih none, Ne.symm other⟩

theorem dropWhile_of_not_mem {text : List Char} (free : '\n' ∉ text) :
    text.dropWhile (· = '\n') = text := by
  cases text with
  | nil => rfl
  | cons c rest =>
    have other : c ≠ '\n' := fun same => free (same ▸ List.mem_cons_self)
    simp [other]

/-- Two texts that are the same have the same last line. -/
theorem last_line_unique {above above' last last' : List Char}
    (same : above ++ '\n' :: last = above' ++ '\n' :: last') (free : '\n' ∉ last)
    (free' : '\n' ∉ last') : last = last' := by
  rcases List.append_eq_append_iff.mp same with ⟨more, _, rest⟩ | ⟨more, _, rest⟩
  · rcases List.cons_eq_append_iff.mp rest with ⟨_, tail⟩ | ⟨more, _, rfl⟩
    · exact (List.cons.inj tail).2.symm
    · exact absurd (List.mem_append_right _ List.mem_cons_self) free
  · rcases List.cons_eq_append_iff.mp rest with ⟨_, tail⟩ | ⟨more, _, rfl⟩
    · exact (List.cons.inj tail).2
    · exact absurd (List.mem_append_right _ List.mem_cons_self) free'

/-! ## Sections -/

namespace Sections

variable {head rest : List Char} {span : Span}

/-- What stands before a place: everything from the last line feed on, or nothing if the place
begins with a line feed itself. -/
theorem before_cut (start : span.start.index = head.length) :
    (cut (head ++ rest) span).before =
      if rest.head? = some '\n' then [] else head.drop ((lastFeed? head).getD 0) := by
  have first : reach (head ++ rest) span.start.index = head.length := by
    rw [start, reach_natCast]
  have next : reach (head ++ rest) (span.start.index + 1) = head.length + 1 := by
    rw [start]
    exact reach_natCast _ (head.length + 1)
  unfold cut slice
  dsimp only
  rw [first, next, List.take_left, List.take_length_add_append]
  cases rest with
  | nil =>
    rw [List.take_nil, List.append_nil]
    rfl
  | cons c rest =>
    rw [List.take_succ_cons, List.take_zero, lastFeed?_append, List.head?_cons]
    by_cases feed : c = '\n'
    · simp [feed]
    · simp [feed]

theorem within_cut {stop : Nat} (ordered : head.length ≤ stop)
    (first : span.start.index = head.length) (last : span.stop.index = stop) :
    (cut (head ++ rest) span).within = rest.take (stop - head.length) := by
  change slice _ (reach _ span.start.index) (reach _ span.stop.index) = _
  rw [first, last, reach_natCast, reach_natCast, slice, List.take_append,
    List.take_of_length_le ordered, List.drop_left]

theorem behind_cut {stop : Nat} (ordered : head.length ≤ stop) (last : span.stop.index = stop) :
    (cut (head ++ rest) span).behind =
      (rest.drop (stop - head.length)).takeWhile (· ≠ '\n') := by
  change ((head ++ rest).drop (reach _ span.stop.index)).takeWhile _ = _
  rw [last, reach_natCast, List.drop_append, List.drop_of_length_le ordered, List.nil_append]

/-- The line that the last line feed of a text begins. -/
theorem exists_line (head : List Char) :
    ∃ earlier lead, head = earlier ++ lead ∧ '\n' ∉ lead ∧ (∀ c ∈ earlier.getLast?, c = '\n') ∧
      earlier.length = lineStart head ∧
      ∃ front, head.drop ((lastFeed? head).getD 0) = front ++ lead ∧
        (front = [] ∨ front = ['\n']) := by
  unfold lineStart
  cases found : lastFeed? head with
  | none =>
    have free := not_mem_of_lastFeed? found
    exact ⟨[], head, rfl, free, by simp, rfl, [], rfl, .inl rfl⟩
  | some feed =>
    obtain ⟨front, back, rfl, rfl, free⟩ := exists_of_lastFeed? found
    refine ⟨front ++ ['\n'], back, by simp, free, ?_, by simp, ['\n'], by simp, .inr rfl⟩
    intro c last
    simpa using last.symm

/-- The sections cut the text from `start` to `stop` out of its lines. -/
structure Clean (text : List Char) (start stop : Nat) (sections : Sections) : Prop where
  ordered : start ≤ stop
  inside : stop ≤ text.length
  place : sections.within = slice text start stop
  /-- The sections stand one behind another, and a line feed or the end of the text follows. -/
  contiguous : ∃ front rest,
    text = front ++ (sections.before ++ sections.within ++ sections.behind) ++ rest ∧
    (front ++ sections.before).length = start ∧ ∀ c ∈ rest.head?, c = '\n'
  behind : '\n' ∉ sections.behind
  before : '\n' ∉ sections.before.tail

/-- What is cut at a place in the text is cut cleanly. -/
theorem clean_cut {text : List Char} {start stop : Nat} (ordered : start ≤ stop)
    (inside : stop ≤ text.length) (first : span.start.index = start)
    (last : span.stop.index = stop) : (cut text span).Clean text start stop := by
  obtain ⟨head, rest, rfl, length⟩ : ∃ head rest, text = head ++ rest ∧ head.length = start :=
    ⟨text.take start, text.drop start, (List.take_append_drop _ _).symm,
      List.length_take_of_le (ordered.trans inside)⟩
  subst length
  have place : (cut (head ++ rest) span).within = _ := within_cut ordered first last
  have behind : (cut (head ++ rest) span).behind = _ := behind_cut ordered last
  obtain ⟨earlier, lead, whole, free, _, _, front, lines, single⟩ := exists_line head
  refine ⟨ordered, inside, ?_, ?_, ?_, ?_⟩
  · rw [place, slice, List.take_append, List.take_of_length_le ordered, List.drop_left]
  · -- what stands before the place ends where the place begins
    obtain ⟨front, split⟩ : (cut (head ++ rest) span).before <:+ head := by
      rw [before_cut first]
      split
      · exact List.nil_suffix
      · exact List.drop_suffix _ _
    refine ⟨front, (rest.drop (stop - head.length)).dropWhile (· ≠ '\n'), ?_, ?_, ?_⟩
    · rw [← List.append_assoc, ← List.append_assoc, split, place, behind, List.append_assoc,
        List.append_assoc, List.takeWhile_append_dropWhile, List.take_append_drop]
    · rw [split]
    · intro c next
      have stopped := List.head?_dropWhile_not (· ≠ '\n') (rest.drop (stop - head.length))
      rw [next] at stopped
      simpa using stopped
  · rw [behind]
    intro mem
    simpa using List.all_eq_true.mp List.all_takeWhile _ mem
  · rw [before_cut first]
    split
    · exact List.not_mem_nil
    · rw [lines]
      rcases single with rfl | rfl
      · exact fun mem => free (List.mem_of_mem_tail mem)
      · exact free

/-! ## Carets -/

/-- The last line of the picture is so many blanks and some carets behind them. -/
def CaretsAt (column : Nat) (sections : Sections) : Prop :=
  ∃ above more, sections.picture =
    above ++ '\n' :: (List.replicate column ' ' ++ List.replicate (more + 1) '^')

variable {sections : Sections}

/-- The carets stand behind as many blanks as there are characters before the place. -/
theorem caretsAt_iff {column : Nat} :
    sections.CaretsAt column ↔ (sections.before.dropWhile (· = '\n')).length = column := by
  have free (blanks carets : Nat) :
      '\n' ∉ List.replicate blanks ' ' ++ List.replicate carets '^' := by
    simp [List.mem_replicate]
  have drawn : sections.picture =
      sections.before.dropWhile (· = '\n') ++ sections.within ++ sections.behind ++
        '\n' :: (List.replicate (sections.before.dropWhile (· = '\n')).length ' ' ++
          List.replicate (max 1 (sections.within.takeWhile (· ≠ '\n')).length) '^') := by
    simp [picture]
  constructor
  · rintro ⟨above, more, same⟩
    rw [drawn] at same
    have lines := last_line_unique same (free _ _) (free _ _)
    -- the blanks of a line are counted
    simpa [List.count_replicate] using congrArg (List.count ' ') lines
  · rintro rfl
    obtain ⟨more, marked⟩ := Nat.exists_eq_add_of_le'
      (Nat.le_max_left 1 (sections.within.takeWhile (· ≠ '\n')).length)
    rw [marked] at drawn
    exact ⟨_, more, drawn⟩

/-- A picture of nothing but a place that begins with a line feed begins with a line feed. -/
theorem head?_picture {more : List Char} (none : sections.before = [])
    (feed : (sections.within ++ sections.behind ++ more).head? = some '\n') :
    sections.picture.head? = some '\n' := by
  unfold picture
  rw [none]
  cases shown : sections.within ++ sections.behind with
  | nil => simp [shown]
  | cons c others =>
    rw [shown] at feed
    simpa [shown] using feed

/-- The picture of a place shows the line before it, and its carets stand under the place, unless
the place begins with a line feed behind other characters of the line. -/
theorem tfae_cut {text : List Char} {start stop : Nat} (ordered : start ≤ stop)
    (inside : stop ≤ text.length) (first : span.start.index = start)
    (last : span.stop.index = stop) :
    ∃ earlier lead rest, text = earlier ++ lead ++ rest ∧ (∀ c ∈ earlier.getLast?, c = '\n') ∧
      '\n' ∉ lead ∧ (earlier ++ lead).length = start ∧
      earlier.length = lineStart (text.take start) ∧
      (rest.head? = some '\n' → (cut text span).before = []) ∧
      [lead <+: (cut text span).picture, (cut text span).CaretsAt lead.length,
        (cut text span).before.dropWhile (· = '\n') = lead,
        rest.head? = some '\n' → lead = []].TFAE := by
  have clean := clean_cut ordered inside first last
  obtain ⟨head, rest, rfl, length⟩ : ∃ head rest, text = head ++ rest ∧ head.length = start :=
    ⟨text.take start, text.drop start, (List.take_append_drop _ _).symm,
      List.length_take_of_le (ordered.trans inside)⟩
  subst length
  obtain ⟨earlier, lead, whole, free, feeds, begins, front, lines, single⟩ := exists_line head
  have empty : rest.head? = some '\n' → (cut (head ++ rest) span).before = [] := by
    intro feed
    rw [before_cut first, if_pos feed]
  refine ⟨earlier, lead, rest, by rw [whole], feeds, free, by rw [whole], ?_, empty, ?_⟩
  · rw [List.take_left, begins]
  have shown (other : rest.head? ≠ some '\n') :
      (cut (head ++ rest) span).before.dropWhile (· = '\n') = lead := by
    rw [before_cut first, if_neg other, lines]
    rcases single with rfl | rfl
    · exact dropWhile_of_not_mem free
    · exact dropWhile_of_not_mem free
  tfae_have 3 → 1 := by
    intro same
    unfold picture
    rw [same, List.append_assoc, List.append_assoc, List.append_assoc]
    exact List.prefix_append _ _
  tfae_have 3 → 2 := by
    intro same
    rw [caretsAt_iff, same]
  tfae_have 4 → 3 := by
    intro bare
    by_cases feed : rest.head? = some '\n'
    · rw [empty feed, bare feed]
      rfl
    · exact shown feed
  tfae_have 2 → 4 := by
    intro carets feed
    rw [caretsAt_iff, empty feed] at carets
    exact List.eq_nil_of_length_eq_zero carets.symm
  tfae_have 1 → 4 := by
    intro begins feed
    obtain ⟨_, more, cutting, ends, _⟩ := clean.contiguous
    have behind : (cut (head ++ rest) span).within ++ (cut (head ++ rest) span).behind ++ more =
        rest := by
      rw [empty feed, List.append_nil] at ends
      rw [empty feed, List.nil_append, List.append_assoc] at cutting
      exact (List.append_inj_right cutting ends.symm).symm
    have feedFirst := head?_picture (empty feed) (behind ▸ feed)
    cases lead with
    | nil => rfl
    | cons c others =>
      obtain ⟨_, picture⟩ := begins
      rw [← picture] at feedFirst
      cases feedFirst
      exact absurd List.mem_cons_self free
  tfae_finish

end Sections

/-! ## Reports about a source -/

theorem Fault.sections_report {fault : Fault} {span : Span} (placed : fault.place? = some span)
    (text : String) : (fault.report text).sections = some (.cut text.toList span) := by
  obtain ⟨diagnostic, found, here⟩ := Option.bind_eq_some_iff.mp placed
  rw [report, found]
  change (diagnostic.report text).sections = _
  rw [Diagnostic.report, here]

theorem Span.LiesIn.exists_bounds {text : List Char} {span : Span} (lies : span.LiesIn text) :
    ∃ start stop : Nat, span.start.index = start ∧ span.stop.index = stop ∧ start ≤ stop ∧
      stop ≤ text.length := by
  have first := TruePoint.of_pointOf lies.start
  have last := TruePoint.of_pointOf lies.stop
  have ordered := lies.ordered
  obtain ⟨start, startIs⟩ := Int.eq_ofNat_of_zero_le first.nonneg
  obtain ⟨stop, stopIs⟩ := Int.eq_ofNat_of_zero_le last.nonneg
  have within := last.within
  exact ⟨start, stop, startIs, stopIs, by omega, by omega⟩

namespace Source

variable {limits : Limits} {source : Source} {answers : Option (List String)} {fault : Fault}
  {span : Span}

/-- A report about a source cuts its text cleanly at the place of the fault. -/
theorem sections_of_run (stopped : faultOf? (source.runUnder limits answers) = some fault)
    (placed : fault.place? = some span) :
    ∃ (start stop : Nat) (sections : Sections), span.start.index = start ∧
      span.stop.index = stop ∧ (fault.report source.text).sections = some sections ∧
      sections.Clean source.text.toList start stop := by
  obtain ⟨start, stop, first, last, ordered, inside⟩ :=
    (liesIn_of_run stopped placed).exists_bounds
  exact ⟨start, stop, _, first, last, Fault.sections_report placed source.text,
    Sections.clean_cut ordered inside first last⟩

/-- The call in the body of a function is made on a later line. -/
theorem sections_of_run_inside_function :
    ∃ fault span sections,
      faultOf? ((Source.mk "to f——:\nx——\n.\nf——" "").runUnder .standard none) = some fault ∧
      fault.place? = some span ∧
      (fault.report "to f——:\nx——\n.\nf——").sections = some sections ∧
      sections.Clean "to f——:\nx——\n.\nf——".toList 10 11 ∧ sections.within = ['—'] := by
  have tested :
      ((faultOf? ((Source.mk "to f——:\nx——\n.\nf——" "").runUnder .standard none)).bind
        Fault.place?).map (fun span => (span.start.index, span.stop.index)) = some (10, 11) := by
    decide +kernel
  obtain ⟨span, found, indices⟩ := Option.map_eq_some_iff.mp tested
  obtain ⟨fault, stopped, placed⟩ := Option.bind_eq_some_iff.mp found
  obtain ⟨start, stop, sections, first, last, cut, clean⟩ := sections_of_run stopped placed
  obtain ⟨firstIs, lastIs⟩ := Prod.mk.inj indices
  obtain rfl : start = 10 := by omega
  obtain rfl : stop = 11 := by omega
  have shown : slice "to f——:\nx——\n.\nf——".toList 10 11 = ['—'] := by decide
  exact ⟨fault, span, sections, stopped, placed, cut, clean, clean.place.trans shown⟩

/-- The picture of a report about a source begins with the line before the place of the fault, its
carets stand in the column of the place, and what stands before the place is this line. Each of the
three holds exactly if the place does not begin with the line feed of a line that has other
characters; if it does, nothing stands before the place, and the carets are at the margin. -/
theorem carets_of_run (stopped : faultOf? (source.runUnder limits answers) = some fault)
    (placed : fault.place? = some span) :
    ∃ (earlier lead rest : List Char) (sections : Sections),
      source.text.toList = earlier ++ lead ++ rest ∧ (∀ c ∈ earlier.getLast?, c = '\n') ∧
      '\n' ∉ lead ∧ span.start.index = (earlier ++ lead).length ∧
      span.start.column = lead.length ∧
      (fault.report source.text).sections = some sections ∧
      [lead <+: sections.picture, sections.CaretsAt lead.length,
        sections.before.dropWhile (· = '\n') = lead,
        rest.head? = some '\n' → lead = []].TFAE ∧
      (rest.head? = some '\n' → sections.before = [] ∧ sections.CaretsAt 0) := by
  have lies := liesIn_of_run stopped placed
  obtain ⟨start, stop, first, last, ordered, inside⟩ := lies.exists_bounds
  obtain ⟨earlier, lead, rest, whole, feeds, free, length, begins, empty, same⟩ :=
    Sections.tfae_cut ordered inside first last
  have column : span.start.column = lead.length := by
    rw [(TruePoint.of_pointOf lies.start).column, first, Int.toNat_natCast, ← begins, ← length,
      List.length_append]
    omega
  refine ⟨earlier, lead, rest, _, whole, feeds, free, by rw [first, length], column,
    Fault.sections_report placed source.text, same, fun feed => ⟨empty feed, ?_⟩⟩
  rw [Sections.caretsAt_iff, empty feed]
  rfl

/-- The name that is missing at the end of a line is pointed at from the margin. -/
theorem carets_of_run_line_end :
    ∃ fault span sections, faultOf? ((Source.mk "let\n" "").runUnder .standard none) = some fault ∧
      fault.place? = some span ∧ span.start.column = 3 ∧
      (fault.report "let\n").sections = some sections ∧ sections.before = [] ∧
      ¬ ['l', 'e', 't'] <+: sections.picture ∧ ¬ sections.CaretsAt 3 ∧ sections.CaretsAt 0 := by
  have tested : ((faultOf? ((Source.mk "let\n" "").runUnder .standard none)).bind
      Fault.place?).map (fun span => (span.start.index, span.start.column)) = some (3, 3) := by
    decide +kernel
  obtain ⟨span, found, numbers⟩ := Option.map_eq_some_iff.mp tested
  obtain ⟨fault, stopped, placed⟩ := Option.bind_eq_some_iff.mp found
  obtain ⟨earlier, lead, rest, sections, whole, feeds, free, start, column, cut, same, margin⟩ :=
    carets_of_run stopped placed
  obtain ⟨index, three⟩ := Prod.mk.inj numbers
  rw [List.length_append] at start
  obtain rfl : earlier = [] := List.eq_nil_of_length_eq_zero (by omega)
  have long : lead.length = ['l', 'e', 't'].length := by
    change lead.length = 3
    omega
  have split : ['l', 'e', 't'] ++ ['\n'] = lead ++ rest := whole
  obtain ⟨rfl, rfl⟩ := List.append_inj split long.symm
  obtain ⟨before, carets⟩ := margin rfl
  have wrong : ¬ (['\n'].head? = some '\n' → ['l', 'e', 't'] = []) := by simp
  exact ⟨fault, span, sections, stopped, placed, column, cut, before,
    fun begins => wrong ((same.out 0 3).mp begins), fun three => wrong ((same.out 1 3).mp three),
    carets⟩

end Source

end Marginalia
