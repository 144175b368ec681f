import Changelog.History.Log
import Changelog.Proofs.Paired
import Changelog.Proofs.Text.Lines
import Changelog.Proofs.Text.Parts

/-! # Reading the commit log back

A log is read record by record. Where no separator stands in what it separates, each record is read as it was printed, but
for line feeds at the end of its message; these do not count for the commit.
-/

namespace Changelog

namespace Text

theorem strip_dropTailWhile_newline (text : Text) : strip (dropTailWhile (· == '\n') text) = strip text := by
  have blank : ∀ c ∈ takeTailWhile (· == '\n') text, isBlankChar c := fun c hc => by
    have feed : (c == '\n') = true := forall_mem_takeTailWhile (· == '\n') text c hc
    rw [eq_of_beq feed]
    rfl
  calc strip (dropTailWhile (· == '\n') text)
      = strip (dropTailWhile (· == '\n') text ++ takeTailWhile (· == '\n') text) := (strip_append_of_blank blank _).symm
    _ = strip text := by rw [dropTailWhile_append_takeTailWhile]

theorem words_append_space {word : Text} (filled : ∀ c ∈ word, isBlankChar c = false) (hne : word ≠ []) (rest : Text) :
    words (word ++ ' ' :: rest) = word :: words rest := by
  induction word with
  | nil => contradiction
  | cons c word ih =>
      obtain ⟨hc, hword⟩ := List.forall_mem_cons.mp filled
      have space : isBlankChar ' ' = true := rfl
      cases word with
      | nil => simp [words, hc, space]
      | cons d word =>
          have hd := hword d List.mem_cons_self
          rw [List.cons_append, words, ih hword (List.cons_ne_nil d word)]
          simp [hc, hd, consFirst]

theorem words_join_space {parts : List Text} (h : ∀ part ∈ parts, part ≠ [] ∧ ∀ c ∈ part, isBlankChar c = false) :
    words (join [' '] parts) = parts := by
  fun_induction join [' '] parts with
  | case1 => rfl
  | case2 part => exact words_of_filled (h part (by simp)).2 (h part (by simp)).1
  | case3 part next rest ih =>
      obtain ⟨hpart, hrest⟩ := List.forall_mem_cons.mp h
      rw [List.append_assoc, List.singleton_append, words_append_space hpart.2 hpart.1, ih hrest]

end Text

namespace LogRecord

def print (records : List LogRecord) : Text := records.flatMap fun r => r.text ++ ['\n']

/-- Does no separator stand in what it separates? Parents are names without white space, and no record begins with a line
    feed. -/
structure IsPrintable (r : LogRecord) : Prop where
  unbroken : r.oid.head? ≠ some '\n'
  oid : unitSeparator ∉ r.oid ∧ recordSeparator ∉ r.oid
  parents : ∀ parent ∈ r.parents, parent ≠ [] ∧ ∀ c ∈ parent, isBlankChar c = false
  signatures : ∀ name ∈ [r.author.name, r.author.email, r.committer.name, r.committer.email],
    unitSeparator ∉ name ∧ recordSeparator ∉ name
  message : recordSeparator ∉ r.message

/-- If the record is that of a merge whose title names a pull request, then the number has not too many digits. -/
def IsNumbered (r : LogRecord) : Prop :=
  1 < r.parents.length → ∀ digits ∈ requestDigits? (Commit.splitMessage r.message).1, digits.length ≤ maxNumberDigits

instance (r : LogRecord) : Decidable r.IsPrintable :=
  decidable_of_iff (r.oid.head? ≠ some '\n' ∧ (unitSeparator ∉ r.oid ∧ recordSeparator ∉ r.oid) ∧
      (∀ parent ∈ r.parents, parent ≠ [] ∧ ∀ c ∈ parent, isBlankChar c = false) ∧
      (∀ name ∈ [r.author.name, r.author.email, r.committer.name, r.committer.email],
        unitSeparator ∉ name ∧ recordSeparator ∉ name) ∧ recordSeparator ∉ r.message)
    ⟨fun ⟨unbroken, oid, parents, signatures, message⟩ => ⟨unbroken, oid, parents, signatures, message⟩,
      fun ⟨unbroken, oid, parents, signatures, message⟩ => ⟨unbroken, oid, parents, signatures, message⟩⟩

instance (r : LogRecord) : Decidable r.IsNumbered :=
  inferInstanceAs (Decidable (1 < r.parents.length → ∀ digits ∈ requestDigits? _, digits.length ≤ maxNumberDigits))

/-! ## Records in a log -/

def trimmed (text : Text) : Text := Text.dropTailWhile (· == '\n') (text.dropWhile (· == '\n'))

theorem texts_eq (log : Text) : texts log = ((log.splitOn recordSeparator).map trimmed).filter (!·.isEmpty) := rfl

theorem texts_cons_newline (log : Text) : texts ('\n' :: log) = texts log := by
  have apart : ('\n' == recordSeparator) = false := by decide
  obtain ⟨first, parts, hparts⟩ := List.exists_cons_of_ne_nil (List.splitOn_ne_nil recordSeparator log)
  rw [texts_eq, texts_eq, List.splitOn_cons_eq_if_modifyHead, apart, hparts]
  simp [trimmed]

theorem texts_append {text : Text} (h : recordSeparator ∉ text) (hne : trimmed text ≠ []) (log : Text) :
    texts (text ++ recordSeparator :: log) = trimmed text :: texts log := by
  have parts : (text ++ recordSeparator :: log).splitOn recordSeparator = text :: log.splitOn recordSeparator :=
    List.splitOnP_append_cons_of_forall_mem (fun c hc => beq_false_of_ne (ne_of_mem_of_not_mem hc h)) _
      (beq_self_eq_true _) log
  rw [texts_eq, texts_eq, parts, List.map_cons, List.filter_cons_of_pos (by simpa using hne)]

variable {r : LogRecord} {records : List LogRecord}

/-! ## One record -/

/-- The record as it is read back. -/
def withoutFeeds (r : LogRecord) : LogRecord := { r with message := Text.dropTailWhile (· == '\n') r.message }

theorem join_fields (r : LogRecord) : Text.join [unitSeparator] r.fields = r.oid ++ unitSeparator :: (Text.join [' '] r.parents ++
    unitSeparator :: (r.author.name ++ unitSeparator :: (r.author.email ++ unitSeparator :: (r.committer.name ++
      unitSeparator :: (r.committer.email ++ unitSeparator :: r.message))))) := by
  simp [fields, Text.join]

theorem text_eq (r : LogRecord) : r.text = Text.join [unitSeparator] r.fields ++ [recordSeparator] := rfl

theorem trimmed_join_fields (h : r.IsPrintable) :
    trimmed (Text.join [unitSeparator] r.fields) = Text.join [unitSeparator] r.withoutFeeds.fields := by
  have behind : ∀ front text, Text.dropTailWhile (· == '\n') (front ++ unitSeparator :: text) =
      front ++ unitSeparator :: Text.dropTailWhile (· == '\n') text := Text.dropTailWhile_append_cons (by decide)
  have front : (Text.join [unitSeparator] r.fields).dropWhile (· == '\n') = Text.join [unitSeparator] r.fields := by
    rw [join_fields]
    cases hoid : r.oid with
    | nil => exact List.dropWhile_cons_of_neg (by decide)
    | cons c rest =>
        have hc : c ≠ '\n' := by simpa [hoid] using h.unbroken
        exact List.dropWhile_cons_of_neg (by simpa using hc)
  rw [trimmed, front, join_fields, join_fields]
  simp only [behind]
  rfl

theorem splitFields_append {field : Text} (h : unitSeparator ∉ field) (n : Nat) (rest : Text) :
    splitFields (n + 1) (field ++ unitSeparator :: rest) = field :: splitFields n rest := by
  rw [splitFields, Text.cutAt_append_cons h]

theorem not_mem_join_parents (h : r.IsPrintable) {c : Char} (blank : isBlankChar c) (apart : c ≠ ' ') :
    c ∉ Text.join [' '] r.parents := by
  intro hc
  rcases Text.mem_join hc with hc | ⟨parent, hparent, hc⟩
  · exact apart (List.mem_singleton.mp hc)
  · rw [(h.parents parent hparent).2 c hc] at blank
    contradiction

theorem ofText_join_fields (h : r.IsPrintable) : ofText (Text.join [unitSeparator] r.fields) = .ok r := by
  have signatures := h.signatures
  simp only [List.forall_mem_cons] at signatures
  obtain ⟨name, email, committer, address, -⟩ := signatures
  have parents : unitSeparator ∉ Text.join [' '] r.parents := not_mem_join_parents h (by decide) (by decide)
  unfold ofText
  rw [join_fields, splitFields_append h.oid.1, splitFields_append parents, splitFields_append name.1,
    splitFields_append email.1, splitFields_append committer.1, splitFields_append address.1]
  simp only [splitFields, Text.words_join_space h.parents]

theorem IsPrintable.withoutFeeds (h : r.IsPrintable) : r.withoutFeeds.IsPrintable where
  unbroken := h.unbroken
  oid := h.oid
  parents := h.parents
  signatures := h.signatures
  message hmem := h.message ((Text.dropTailWhile_isPrefix _ r.message).subset hmem)

theorem not_mem_join_fields (h : r.IsPrintable) : recordSeparator ∉ Text.join [unitSeparator] r.fields := by
  have apart : recordSeparator ≠ unitSeparator := by decide
  have parents : recordSeparator ∉ Text.join [' '] r.parents := not_mem_join_parents h (by decide) (by decide)
  have signatures := h.signatures
  simp only [List.forall_mem_cons, List.not_mem_nil, false_implies, implies_true, and_true] at signatures
  simp only [join_fields, List.mem_append, List.mem_cons, apart, false_or, not_or]
  exact ⟨h.oid.2, parents, signatures.1.2, signatures.2.1.2, signatures.2.2.1.2, signatures.2.2.2.2, h.message⟩

theorem texts_print (h : ∀ r ∈ records, r.IsPrintable) :
    texts (print records) = records.map fun r => Text.join [unitSeparator] r.withoutFeeds.fields := by
  induction records with
  | nil => rfl
  | cons r records ih =>
      obtain ⟨hr, hrest⟩ := List.forall_mem_cons.mp h
      have hne : trimmed (Text.join [unitSeparator] r.fields) ≠ [] := by
        rw [trimmed_join_fields hr, join_fields]
        simp
      have text : print (r :: records) = Text.join [unitSeparator] r.fields ++ recordSeparator :: '\n' :: print records := by
        simp [print, text_eq]
      rw [text, texts_append (not_mem_join_fields hr) hne, texts_cons_newline, ih hrest, trimmed_join_fields hr,
        List.map_cons]

end LogRecord

namespace Commit

variable {r : LogRecord} {records : List LogRecord} {commit : Commit} {commits : List Commit}

theorem ofRecord_withoutFeeds (r : LogRecord) : ofRecord r.withoutFeeds = ofRecord r := by
  have same : splitMessage r.withoutFeeds.message = splitMessage r.message := by
    unfold splitMessage
    rw [LogRecord.withoutFeeds, Text.strip_dropTailWhile_newline]
  unfold ofRecord
  rw [same]
  rfl

/-- A printed log is read as the commits of its records. -/
theorem ofLog_print (h : ∀ r ∈ records, r.IsPrintable) :
    ofLog (LogRecord.print records) = .ok commits ↔ List.Forall₂ (fun r commit => ofRecord r = .ok commit) records commits := by
  unfold ofLog
  rw [mapM_eq_ok_iff, LogRecord.texts_print h, List.forall₂_map_left_iff]
  have each : ∀ r ∈ records, (do ofRecord (← LogRecord.ofText (Text.join [LogRecord.unitSeparator] r.withoutFeeds.fields))) =
      ofRecord r := by
    intro r hr
    rw [LogRecord.ofText_join_fields (h r hr).withoutFeeds, ← ofRecord_withoutFeeds r]
    rfl
  constructor
  · intro hcommits
    refine List.Forall₂.imp ?_ ((List.forall₂_and_left records commits).mpr ⟨fun r hr => hr, hcommits⟩)
    rintro r commit ⟨hr, hcommit⟩
    rwa [each r hr] at hcommit
  · intro hcommits
    refine List.Forall₂.imp ?_ ((List.forall₂_and_left records commits).mpr ⟨fun r hr => hr, hcommits⟩)
    rintro r commit ⟨hr, hcommit⟩
    rwa [each r hr]

theorem of_ofRecord (h : ofRecord r = .ok commit) :
    commit.oid = r.oid ∧ commit.parents = r.parents ∧ commit.merger = none ∧ commit.brought = [] := by
  unfold ofRecord at h
  dsimp only at h
  split at h
  · cases hrequest : requestNumber (splitMessage r.message).1 with
    | error fault => rw [hrequest] at h; contradiction
    | ok request =>
        rw [hrequest] at h
        cases h
        exact ⟨rfl, rfl, rfl, rfl⟩
  · cases h
    exact ⟨rfl, rfl, rfl, rfl⟩

theorem exists_ofRecord (h : r.IsNumbered) : ∃ commit, ofRecord r = .ok commit := by
  unfold ofRecord
  dsimp only
  split
  next merge =>
    unfold requestNumber
    cases hdigits : requestDigits? (splitMessage r.message).1 with
    | none => exact ⟨_, rfl⟩
    | some digits =>
        have short : ¬maxNumberDigits < digits.length := Nat.not_lt.mpr (h (of_decide_eq_true merge) digits hdigits)
        simp only [if_neg short]
        exact ⟨_, rfl⟩
  next => exact ⟨_, rfl⟩

theorem oid_of_ofLog_print (h : ∀ r ∈ records, r.IsPrintable) (read : ofLog (LogRecord.print records) = .ok commits) :
    commits.map oid = records.map LogRecord.oid := by
  replace read := (ofLog_print h).mp read
  induction read with
  | nil => rfl
  | cons hcommit _ ih => rw [List.map_cons, List.map_cons, (of_ofRecord hcommit).1, ih fun r hr => h r (List.mem_cons_of_mem _ hr)]

/-- A printed log is read, if no number in it has too many digits. -/
theorem exists_ofLog_print (h : ∀ r ∈ records, r.IsPrintable ∧ r.IsNumbered) :
    ∃ commits, ofLog (LogRecord.print records) = .ok commits ∧ commits.map oid = records.map LogRecord.oid := by
  have read : ∃ commits, List.Forall₂ (fun r commit => ofRecord r = .ok commit) records commits := by
    induction records with
    | nil => exact ⟨[], .nil⟩
    | cons r records ih =>
        obtain ⟨hr, hrest⟩ := List.forall_mem_cons.mp h
        obtain ⟨commit, hcommit⟩ := exists_ofRecord hr.2
        obtain ⟨commits, hcommits⟩ := ih hrest
        exact ⟨commit :: commits, .cons hcommit hcommits⟩
  obtain ⟨commits, hcommits⟩ := read
  have printable : ∀ r ∈ records, r.IsPrintable := fun r hr => (h r hr).1
  have read := (ofLog_print printable).mpr hcommits
  exact ⟨commits, read, oid_of_ofLog_print printable read⟩

theorem exists_of_mem_ofLog_print (h : ∀ r ∈ records, r.IsPrintable)
    (read : ofLog (LogRecord.print records) = .ok commits) (hcommit : commit ∈ commits) :
    ∃ r ∈ records, commit.oid = r.oid ∧ commit.parents = r.parents := by
  replace read := (ofLog_print h).mp read
  induction read with
  | nil => contradiction
  | @cons r first records rest hfirst _ ih =>
      rcases List.mem_cons.mp hcommit with rfl | hcommit
      · exact ⟨r, List.mem_cons_self, (of_ofRecord hfirst).1, (of_ofRecord hfirst).2.1⟩
      · obtain ⟨other, hother, told⟩ := ih (fun r hr => h r (List.mem_cons_of_mem _ hr)) hcommit
        exact ⟨other, List.mem_cons_of_mem _ hother, told⟩

theorem of_mem_ofLog {log : Text} (h : ofLog log = .ok commits) (hcommit : commit ∈ commits) :
    commit.merger = none ∧ commit.brought = [] := by
  replace h := mapM_eq_ok_iff.mp h
  generalize LogRecord.texts log = texts at h
  induction h with
  | nil => contradiction
  | @cons text first _ _ hfirst _ ih =>
      rcases List.mem_cons.mp hcommit with rfl | hcommit
      · cases hrecord : LogRecord.ofText text with
        | error fault => rw [hrecord] at hfirst; contradiction
        | ok r =>
            rw [hrecord] at hfirst
            exact (of_ofRecord hfirst).2.2
      · exact ih hcommit

end Commit

end Changelog
