import Changelog.Proofs.Text.Rows

/-! # The source of lines

Neighbouring lines of a text that are glued by line feeds are a piece of that text in which every line boundary was
written as a line feed. Only where line feeds are its boundaries already are they that piece itself.
-/

namespace Changelog.Text

variable {text source : Text} {front back run : List Text}

/-- A text with a line feed for each of its line boundaries. -/
def fed : Text → Text
  | [] => []
  | '\r' :: '\n' :: rest => '\n' :: fed rest
  | c :: rest => (if isLineEnd c then '\n' else c) :: fed rest

instance (text : Text) : Decidable text.IsFed := inferInstanceAs (Decidable (∀ c ∈ text, _))

theorem fed_cons {c : Char} (h : ∀ rest, c = '\r' → text ≠ '\n' :: rest) :
    fed (c :: text) = (if isLineEnd c then '\n' else c) :: fed text :=
  fed.eq_3 c text fun rest hc => h rest hc

theorem fed_of_isFed (h : text.IsFed) : fed text = text := by
  induction text with
  | nil => rfl
  | cons c text ih =>
      obtain ⟨hc, htext⟩ := (isFed_cons c text).mp h
      have apart : ∀ rest, c = '\r' → text ≠ '\n' :: rest := by
        rintro rest rfl
        exact absurd (hc (by decide)) (by decide)
      rw [fed_cons apart, ih htext]
      split
      next isEnd => rw [hc isEnd]
      next => rfl

theorem isUnbroken_of_fed (h : (fed text).IsUnbroken) : text.IsUnbroken := by
  fun_induction fed text with
  | case1 => exact h
  | case2 rest ih => exact absurd ((isUnbroken_cons _ _).mp h).1 (by decide)
  | case3 c rest _ ih =>
      obtain ⟨hc, hrest⟩ := (isUnbroken_cons _ _).mp h
      refine (isUnbroken_cons c rest).mpr ⟨?_, ih hrest⟩
      split at hc
      · exact absurd hc (by decide)
      · exact hc

theorem IsFed.of_isInfix (h : text.IsFed) (hsource : source <:+: text) : source.IsFed :=
  fun c hc => h c (hsource.subset hc)

/-! ## Lines in front and lines behind -/

/-- A boundary that stands in front of the lines of a piece, if the piece begins where the boundary ends. -/
theorem apart_of_isPrefix {c : Char} {rest : Text} (single : ∀ later, c = '\r' → rest = '\n' :: later → False)
    (h : source <+: rest) : ∀ later, c = '\r' → source ≠ '\n' :: later := by
  rintro later hc rfl
  obtain ⟨tail, rfl⟩ := h
  exact single _ hc rfl

theorem exists_fed_behind (boundary : Text) {rest : Text}
    (written : ∀ source, source <+: rest → fed (boundary ++ source) = '\n' :: fed source)
    (h : run ≠ [] → ∃ source, source <+: rest ∧ unlines run = fed source) :
    ∃ source, source <+: boundary ++ rest ∧ unlines ([] :: run) = fed source := by
  by_cases hrun : run = []
  · subst hrun
    exact ⟨[], List.nil_prefix, rfl⟩
  · obtain ⟨source, hsource, heq⟩ := h hrun
    refine ⟨boundary ++ source, (List.prefix_append_right_inj boundary).mpr hsource, ?_⟩
    rw [unlines_cons_of_ne_nil hrun, heq, written source hsource]
    rfl

theorem exists_fed_of_isPrefix (hne : front ≠ []) (h : front <+: lines text) :
    ∃ source, source <+: text ∧ unlines front = fed source := by
  fun_induction lines text generalizing front with
  | case1 => exact absurd (List.prefix_nil.mp h) hne
  | case2 rest ih =>
      obtain ⟨first, others, rfl⟩ := List.exists_cons_of_ne_nil hne
      obtain ⟨rfl, hothers⟩ := List.cons_prefix_cons.mp h
      exact exists_fed_behind ['\r', '\n'] (fun _ _ => rfl) fun hne => ih hne hothers
  | case3 c rest single isEnd ih =>
      obtain ⟨first, others, rfl⟩ := List.exists_cons_of_ne_nil hne
      obtain ⟨rfl, hothers⟩ := List.cons_prefix_cons.mp h
      refine exists_fed_behind [c] (fun source hsource => ?_) fun hne => ih hne hothers
      rw [List.singleton_append, fed_cons (apart_of_isPrefix single hsource), if_pos isEnd]
  | case4 c rest single isEnd ih =>
      have inside : ∀ {source : Text}, source <+: rest → fed (c :: source) = c :: fed source := fun hsource => by
        rw [fed_cons (apart_of_isPrefix single hsource), if_neg isEnd]
      obtain ⟨first, others, rfl⟩ := List.exists_cons_of_ne_nil hne
      cases hrest : lines rest with
      | nil =>
          rw [hrest] at h
          obtain ⟨rfl, hothers⟩ := List.cons_prefix_cons.mp h
          rw [List.prefix_nil.mp hothers]
          exact ⟨[c], List.cons_prefix_cons.mpr ⟨rfl, List.nil_prefix⟩, (inside List.nil_prefix).symm⟩
      | cons next later =>
          rw [hrest] at h ih
          obtain ⟨rfl, hothers⟩ := List.cons_prefix_cons.mp h
          obtain ⟨source, hsource, heq⟩ := ih (List.cons_ne_nil next others) (List.cons_prefix_cons.mpr ⟨rfl, hothers⟩)
          refine ⟨c :: source, List.cons_prefix_cons.mpr ⟨rfl, hsource⟩, ?_⟩
          rw [inside hsource, ← heq]
          exact join_consFirst ['\n'] c (List.cons_ne_nil next others)

theorem exists_lines_of_isSuffix (h : back <:+ lines text) : ∃ later, later <:+ text ∧ back = lines later := by
  fun_induction lines text with
  | case1 => exact ⟨[], List.suffix_rfl, List.suffix_nil.mp h⟩
  | case2 rest ih =>
      rcases List.suffix_cons_iff.mp h with rfl | h
      · exact ⟨_, List.suffix_rfl, by simp [lines]⟩
      · obtain ⟨later, hlater, heq⟩ := ih h
        exact ⟨later, hlater.trans (List.suffix_append ['\r', '\n'] rest), heq⟩
  | case3 c rest single isEnd ih =>
      rcases List.suffix_cons_iff.mp h with rfl | h
      · exact ⟨_, List.suffix_rfl, by rw [lines_cons fun later hc heq => single later hc heq, if_pos isEnd]⟩
      · obtain ⟨later, hlater, heq⟩ := ih h
        exact ⟨later, hlater.trans (List.suffix_cons c rest), heq⟩
  | case4 c rest single isEnd ih =>
      have whole : lines (c :: rest) = consFirst c (lines rest) := by
        rw [lines_cons fun later hc heq => single later hc heq, if_neg isEnd]
      have split : back = consFirst c (lines rest) ∨ back <:+ lines rest := by
        cases hrest : lines rest with
        | nil =>
            rw [hrest] at h
            exact (List.suffix_cons_iff.mp h).imp_right fun h => h
        | cons first others =>
            rw [hrest] at h
            exact (List.suffix_cons_iff.mp h).imp_right fun h => h.trans (List.suffix_cons first others)
      rcases split with rfl | h
      · exact ⟨_, List.suffix_rfl, whole.symm⟩
      · obtain ⟨later, hlater, heq⟩ := ih h
        exact ⟨later, hlater.trans (List.suffix_cons c rest), heq⟩

/-- Neighbouring lines are a piece of the text, but for its boundaries. -/
theorem exists_fed_of_isInfix (hne : run ≠ []) (h : run <:+: lines text) :
    ∃ source, source <:+: text ∧ unlines run = fed source := by
  obtain ⟨before, after, h⟩ := h
  have behind : run ++ after <:+ lines text := ⟨before, by rw [← List.append_assoc, h]⟩
  obtain ⟨later, hlater, heq⟩ := exists_lines_of_isSuffix behind
  have first : run <+: lines later := ⟨after, heq⟩
  obtain ⟨source, hsource, hfed⟩ := exists_fed_of_isPrefix hne first
  exact ⟨source, hsource.isInfix.trans hlater.isInfix, hfed⟩

end Changelog.Text
